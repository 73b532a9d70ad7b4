import BuildAdvisor.Proofs.Rational
import BuildAdvisor.Proofs.Split.Rounds
import Mathlib.Algebra.BigOperators.Group.Finset.Basic
import Mathlib.Algebra.Order.BigOperators.Group.Finset
import Mathlib.Tactic.Linarith
import Mathlib.Tactic.Ring

/-!
Rows of exact numbers, their distances and their means.

* `squaredDistance_eq_sum` — the squares of the differences, column by column;
* `squaredDistance_eq_zero_iff` — no distance means the same row;
* `sum_distances` — the distances of some rows to any point are those to their mean, and the
  distance of the mean to the point once for each row;
* `mean_nearer` — a mean is nearer to a point than the farthest of its rows, unless all of them are
  as far;
* `nearest_spec`, `getElem?_nearest` — the nearest centroid, and the one that is the point itself.

All rows have one width.
-/

set_option autoImplicit false

namespace BuildAdvisor.Split

/-! ## Distances -/

theorem sum_zipWith_eq_sum_range (f : Rat → Rat → Rat) {width : Nat} {a b : List Rat}
    (ha : a.length = width) (hb : b.length = width) :
    (List.zipWith f a b).sum = ∑ j ∈ Finset.range width, f (a.getD j 0) (b.getD j 0) := by
  induction width generalizing a b with
  | zero => simp [List.length_eq_zero_iff.mp ha]
  | succ width ih =>
    cases a with
    | nil => cases ha
    | cons x a =>
      cases b with
      | nil => cases hb
      | cons y b =>
        rw [List.zipWith_cons_cons, List.sum_cons, ih (Nat.succ.inj ha) (Nat.succ.inj hb),
          Finset.sum_range_succ', add_comm]
        rfl

theorem squaredDistance_eq_sum {width : Nat} {a b : List Rat} (ha : a.length = width)
    (hb : b.length = width) :
    squaredDistance a b = ∑ j ∈ Finset.range width, (a.getD j 0 - b.getD j 0) ^ 2 := by
  rw [squaredDistance, Rational.sum_eq, sum_zipWith_eq_sum_range _ ha hb]
  exact Finset.sum_congr rfl fun j _ => (sq _).symm

theorem squaredDistance_nonneg (a b : List Rat) : 0 ≤ squaredDistance a b := by
  have h := squaredDistance_not_neg a b
  rwa [Rational.zero_literal, not_lt] at h

theorem squaredDistance_comm {a b : List Rat} (h : a.length = b.length) :
    squaredDistance a b = squaredDistance b a := by
  rw [squaredDistance_eq_sum h rfl, squaredDistance_eq_sum h.symm rfl, h]
  exact Finset.sum_congr rfl fun j _ => by ring

theorem squaredDistance_eq_zero_iff {a b : List Rat} (h : a.length = b.length) :
    squaredDistance a b = 0 ↔ a = b := by
  rw [squaredDistance_eq_sum h rfl, Finset.sum_eq_zero_iff_of_nonneg fun j _ => sq_nonneg _]
  constructor
  · intro hall
    refine List.ext_getElem h fun j hja hjb => ?_
    have hj := hall j (Finset.mem_range.mpr hjb)
    rw [sq_eq_zero_iff, sub_eq_zero, List.getD_eq_getElem _ _ hja,
      List.getD_eq_getElem _ _ hjb] at hj
    exact hj
  · rintro rfl j -
    rw [sub_self, sq, mul_zero]

theorem squaredDistance_self (a : List Rat) : squaredDistance a a = 0 :=
  (squaredDistance_eq_zero_iff rfl).mpr rfl

/-! ## Means -/

/-- Squares about any number, through the sum of what they are squares of. -/
theorem sum_squares_about (xs : List Rat) (m c : Rat) :
    (xs.map fun x => (x - c) ^ 2).sum =
      (xs.map fun x => (x - m) ^ 2).sum + 2 * (m - c) * (xs.sum - (xs.length : Rat) * m) +
        (xs.length : Rat) * (m - c) ^ 2 := by
  induction xs with
  | nil => simp
  | cons x rest ih =>
    simp only [List.map_cons, List.sum_cons, List.length_cons, ih, Nat.cast_add, Nat.cast_one]
    ring

theorem sum_map_sum_range {γ : Type} (xs : List γ) (f : γ → Nat → Rat) (n : Nat) :
    (xs.map fun x => ∑ j ∈ Finset.range n, f x j).sum =
      ∑ j ∈ Finset.range n, (xs.map fun x => f x j).sum := by
  induction xs with
  | nil => simp
  | cons x rest ih => simp only [List.map_cons, List.sum_cons, ih, Finset.sum_add_distrib]

section Rows

variable {width : Nat} {rows : List (List Rat)} (hrows : ∀ r ∈ rows, r.length = width)

include hrows

theorem getD_mean {j : Nat} (hj : j < width) :
    (mean width rows).getD j 0 = (rows.map fun r => r.getD j 0).sum / (rows.length : Rat) := by
  have hcolumn : rows.filterMap (·[j]?) = rows.map fun r => r.getD j 0 := by
    rw [← List.filterMap_eq_map]
    refine List.filterMap_congr fun r hr => ?_
    have hjr : j < r.length := (hrows r hr).symm ▸ hj
    rw [List.getElem?_eq_getElem hjr, Function.comp_apply, List.getD_eq_getElem _ _ hjr]
  rw [mean_eq_columnMean, columnMean, List.getD_eq_getElem?_getD, List.getElem?_map,
    List.getElem?_range hj, Option.map_some, Option.getD_some, hcolumn, Rational.zero_literal,
    ← List.sum_eq_foldl]

theorem sum_distances_eq_sum_columns {c : List Rat} (hc : c.length = width) :
    (rows.map fun r => squaredDistance r c).sum =
      ∑ j ∈ Finset.range width, ((rows.map fun r => r.getD j 0).map
        fun x => (x - c.getD j 0) ^ 2).sum := by
  rw [List.map_congr_left fun r hr => squaredDistance_eq_sum (hrows r hr) hc, sum_map_sum_range]
  exact Finset.sum_congr rfl fun j _ => by rw [List.map_map]; rfl

theorem sum_distances {c : List Rat} (hc : c.length = width) :
    (rows.map fun r => squaredDistance r c).sum =
      (rows.map fun r => squaredDistance r (mean width rows)).sum +
        (rows.length : Rat) * squaredDistance (mean width rows) c := by
  by_cases hne : rows = []
  · simp [hne]
  rw [sum_distances_eq_sum_columns hrows hc,
    sum_distances_eq_sum_columns hrows (length_mean width rows),
    squaredDistance_eq_sum (length_mean width rows) hc, Finset.mul_sum, ← Finset.sum_add_distrib]
  refine Finset.sum_congr rfl fun j hj => ?_
  -- The sum of a column is its mean as often as there are rows, so the middle term is zero.
  have hpos : (rows.length : Rat) ≠ 0 :=
    Nat.cast_ne_zero.mpr fun h => hne (List.length_eq_zero_iff.mp h)
  have hsum : (rows.map fun r => r.getD j 0).sum =
      (rows.length : Rat) * (mean width rows).getD j 0 := by
    rw [getD_mean hrows (Finset.mem_range.mp hj), mul_div_cancel₀ _ hpos]
  rw [sum_squares_about _ ((mean width rows).getD j 0) (c.getD j 0), List.length_map, hsum,
    sub_self, mul_zero, add_zero]

theorem length_mul_distance_mean_le {c : List Rat} (hc : c.length = width) :
    (rows.length : Rat) * squaredDistance (mean width rows) c ≤
      (rows.map fun r => squaredDistance r c).sum := by
  have hrest : 0 ≤ (rows.map fun r => squaredDistance r (mean width rows)).sum :=
    List.sum_nonneg fun x hx => by
      obtain ⟨r, -, rfl⟩ := List.mem_map.mp hx
      exact squaredDistance_nonneg r (mean width rows)
  rw [sum_distances hrows hc]
  exact le_add_of_nonneg_left hrest

theorem mean_nearer {c : List Rat} (hc : c.length = width) {bound : Rat}
    (hle : ∀ r ∈ rows, squaredDistance r c ≤ bound)
    (hlt : ∃ r ∈ rows, squaredDistance r c < bound) :
    squaredDistance (mean width rows) c < bound := by
  have hbound : (rows.map fun r => squaredDistance r c).sum < (rows.length : Rat) * bound := by
    have h := List.sum_lt_sum (fun r => squaredDistance r c) (fun _ => bound) hle hlt
    rwa [List.map_const', List.sum_replicate, nsmul_eq_mul] at h
  exact lt_of_mul_lt_mul_left ((length_mul_distance_mean_le hrows hc).trans_lt hbound)
    (Nat.cast_nonneg _)

end Rows

theorem mean_eq_of_forall_eq {width : Nat} {rows : List (List Rat)} {a : List Rat}
    (ha : a.length = width) (hne : rows ≠ []) (h : ∀ r ∈ rows, r = a) : mean width rows = a := by
  have hpos : (0 : Rat) < (rows.length : Rat) := by exact_mod_cast List.length_pos_of_ne_nil hne
  have hzero : (rows.map fun r => squaredDistance r a).sum = 0 := by
    refine List.sum_eq_zero fun x hx => ?_
    obtain ⟨r, hr, rfl⟩ := List.mem_map.mp hx
    rw [h r hr, squaredDistance_self]
  have hle := length_mul_distance_mean_le (fun r hr => h r hr ▸ ha) ha
  rw [hzero] at hle
  have hdist : squaredDistance (mean width rows) a = 0 :=
    le_antisymm (nonpos_of_mul_nonpos_right hle hpos) (squaredDistance_nonneg _ _)
  exact (squaredDistance_eq_zero_iff (by rw [length_mean, ha])).mp hdist

/-! ## The nearest centroid -/

theorem nearest_spec {centroids : List (List Rat)} (hne : centroids ≠ []) (point : List Rat) :
    ∃ c, centroids[nearest centroids point]? = some c ∧
      ∀ other ∈ centroids, squaredDistance point c ≤ squaredDistance point other := by
  obtain ⟨c, hc, hmin⟩ := (nearest_isLeast hne point).1
  exact ⟨c, hc, fun other ho => not_lt.mp fun hlt => hmin other ho ⟨rfl, fun _ => hlt⟩⟩

/-- Of rows of the same width, the only one at no distance is the point itself. -/
theorem getElem?_nearest {centroids : List (List Rat)} {point : List Rat}
    (hwidth : ∀ c ∈ centroids, c.length = point.length) (h : point ∈ centroids) :
    centroids[nearest centroids point]? = some point := by
  obtain ⟨c, hc, hmin⟩ := nearest_spec (List.ne_nil_of_mem h) point
  have hle := hmin point h
  rw [squaredDistance_self] at hle
  have hzero := le_antisymm hle (squaredDistance_nonneg point c)
  have hlen := hwidth c (List.mem_of_getElem? hc)
  rw [hc, (squaredDistance_eq_zero_iff hlen.symm).mp hzero]

end BuildAdvisor.Split
