import BuildAdvisor.Split.KMeans
import BuildAdvisor.Proofs.Scalar.Order
import Mathlib.Order.Bounds.Basic

/-!
The label of a point is the first of the nearest centroids.

* `Nearer` — the order of distances, in which one that is no finite number comes last;
* `squaredDistance_not_neg` — a distance is not below zero;
* `Scanned`, `Scanned.step` — what is known of the centroids passed so far, and that the next one
  keeps it so;
* `nearest_isLeast` — the result of the whole scan.
-/

set_option autoImplicit false

namespace BuildAdvisor.Split

variable {α : Type} [Scalar α]

/-! ## Distances -/

/-- A point at no finite distance from any centroid is as near to one as to another. -/
def Nearer (x y : α) : Prop :=
  Scalar.isFinite x = true ∧ (Scalar.isFinite y = true → x < y)

def IsNearest (centroids : List (List α)) (point : List α) (label : Nat) : Prop :=
  ∃ centroid, centroids[label]? = some centroid ∧ ∀ other ∈ centroids,
    ¬ Nearer (squaredDistance point other) (squaredDistance point centroid)

variable [Scalar.Ordered α]

theorem Nearer.asymm {x y : α} (h : Nearer x y) : ¬ Nearer y x :=
  fun h' => Scalar.Ordered.lt_asymm (h.2 h'.1) (h'.2 h.1)

theorem not_nearer_self (x : α) : ¬ Nearer x x :=
  fun h => h.asymm h

theorem Nearer.nearer_or_nearer {x z : α} (h : Nearer x z) (y : α) :
    Nearer x y ∨ Nearer y z := by
  by_cases hy : Scalar.isFinite y = true
  · by_cases hz : Scalar.isFinite z = true
    · exact (Scalar.Ordered.lt_or_lt h.1 hy hz (h.2 hz)).imp (fun hlt => ⟨h.1, fun _ => hlt⟩)
        fun hlt => ⟨hy, fun _ => hlt⟩
    · exact .inr ⟨hy, fun hz' => absurd hz' hz⟩
  · exact .inl ⟨h.1, fun hy' => absurd hy' hy⟩

theorem Nearer.trans {x y z : α} (hxy : Nearer x y) (hyz : Nearer y z) : Nearer x z :=
  (hxy.nearer_or_nearer z).resolve_right hyz.asymm

theorem Nearer.trans_not_nearer {x y z : α} (hxy : Nearer x y) (hzy : ¬ Nearer z y) :
    Nearer x z :=
  (hxy.nearer_or_nearer z).resolve_right hzy

theorem foldl_add_square_not_neg (pairs : List (α × α)) (start : α) (hs : ¬ start < 0.0) :
    ¬ (pairs.map fun p => (p.1 - p.2) * (p.1 - p.2)).foldl (· + ·) start < 0.0 := by
  induction pairs generalizing start with
  | nil => exact hs
  | cons p rest ih => exact ih _ (Scalar.Ordered.not_add_square_lt (p.1 - p.2) hs)

theorem squaredDistance_not_neg (a b : List α) : ¬ squaredDistance a b < 0.0 := by
  rw [squaredDistance, Scalar.sum, ← List.map_uncurry_zip_eq_zipWith]
  exact foldl_add_square_not_neg (a.zip b) _ Scalar.Ordered.not_negZero_lt

/-! ## The scan -/

/-- The distances passed so far, split at the best of them: it is nearer than all before it, and
none after it is nearer. -/
inductive Scanned : List α → Nat → Option α → Prop
  | unreached {distances : List α} (h : ∀ x ∈ distances, Scalar.isFinite x = false) :
      Scanned distances 0 none
  | found {before after : List α} {best : α} (hbest : Scalar.isFinite best = true)
      (hbefore : ∀ x ∈ before, Nearer best x) (hafter : ∀ x ∈ after, ¬ Nearer x best) :
      Scanned (before ++ best :: after) before.length (some best)

theorem Scanned.step {distances : List α} {best : Nat} {bestDistance : Option α}
    (h : Scanned distances best bestDistance) {x : α} (hx : ¬ x < 0.0) :
    if isNearer x bestDistance then Scanned (distances ++ [x]) distances.length (some x)
    else Scanned (distances ++ [x]) best bestDistance := by
  cases h with
  | unreached h =>
    rw [isNearer]
    split
    next hf =>
      refine .found hf (fun y hy => ⟨hf, fun hy' => ?_⟩) (fun _ hy => absurd hy List.not_mem_nil)
      exact absurd hy' (by rw [h y hy]; exact Bool.false_ne_true)
    next hf =>
      refine .unreached fun y hy => ?_
      rcases List.mem_append.mp hy with hy | hy
      · exact h y hy
      · rw [List.mem_singleton.mp hy]
        exact Bool.not_eq_true _ ▸ hf
  | @found before after best hbest hbefore hafter =>
    rw [isNearer]
    split
    next hlt =>
      have hlt : x < best := of_decide_eq_true hlt
      have hxb : Nearer x best := ⟨Scalar.Ordered.isFinite_of_lt hx hlt hbest, fun _ => hlt⟩
      refine .found hxb.1 (fun y hy => ?_) (fun _ hy => absurd hy List.not_mem_nil)
      rcases List.mem_append.mp hy with hy | hy
      · exact hxb.trans (hbefore y hy)
      · rcases List.mem_cons.mp hy with rfl | hy
        · exact hxb
        · exact hxb.trans_not_nearer (hafter y hy)
    next hlt =>
      have hlt : ¬ x < best := fun hlt' => hlt (decide_eq_true hlt')
      rw [List.append_assoc, List.cons_append]
      refine .found hbest hbefore fun y hy => ?_
      rcases List.mem_append.mp hy with hy | hy
      · exact hafter y hy
      · rw [List.mem_singleton.mp hy]
        exact fun hn => hlt (hn.2 hbest)

theorem Scanned.nearestFrom (point : List α) {best : Nat} {bestDistance : Option α}
    {passed : List (List α)} (rest : List (List α))
    (h : Scanned (passed.map (squaredDistance point)) best bestDistance) :
    ∃ bestDistance',
      Scanned ((passed ++ rest).map (squaredDistance point))
        (nearestFrom point best bestDistance passed.length rest) bestDistance' := by
  induction rest generalizing best bestDistance passed with
  | nil =>
    rw [List.append_nil]
    exact ⟨bestDistance, h⟩
  | cons centroid rest ih =>
    have hstep := h.step (squaredDistance_not_neg point centroid)
    have happend : passed.map (squaredDistance point) ++ [squaredDistance point centroid] =
        (passed ++ [centroid]).map (squaredDistance point) := by
      rw [List.map_append, List.map_singleton]
    rw [happend, List.length_map] at hstep
    rw [List.append_cons]
    have hlength : passed.length + 1 = (passed ++ [centroid]).length := by
      rw [List.length_append, List.length_singleton]
    simp only [Split.nearestFrom, hlength]
    split_ifs at hstep ⊢ with hn
    · exact ih hstep
    · exact ih hstep

theorem Scanned.isLeast {centroids : List (List α)} {point : List α} {best : Nat}
    {bestDistance : Option α} (hne : centroids ≠ [])
    (h : Scanned (centroids.map (squaredDistance point)) best bestDistance) :
    IsLeast {label | IsNearest centroids point label} best := by
  generalize hd : centroids.map (squaredDistance point) = distances at h
  cases h with
  | unreached h =>
    refine ⟨?_, fun label _ => Nat.zero_le label⟩
    obtain ⟨centroid, rest, rfl⟩ := List.exists_cons_of_ne_nil hne
    refine ⟨centroid, rfl, fun other hother hn => ?_⟩
    have hfar := h _ (hd ▸ List.mem_map_of_mem hother)
    rw [hn.1] at hfar
    cases hfar
  | @found before after best hbest hbefore hafter =>
    have hat : ∀ i, (before ++ best :: after)[i]? = centroids[i]?.map (squaredDistance point) :=
      fun i => by rw [← hd, List.getElem?_map]
    have hmem : ∀ other ∈ centroids, squaredDistance point other ∈ before ++ best :: after :=
      fun other hother => hd ▸ List.mem_map_of_mem hother
    obtain ⟨centroid, hcentroid, hdist⟩ : ∃ centroid, centroids[before.length]? = some centroid ∧
        squaredDistance point centroid = best := by
      have h := hat before.length
      rw [List.getElem?_append_right (Nat.le_refl _), Nat.sub_self, List.getElem?_cons_zero,
        eq_comm, Option.map_eq_some_iff] at h
      exact h
    constructor
    · refine ⟨centroid, hcentroid, fun other hother => ?_⟩
      rw [hdist]
      rcases List.mem_append.mp (hmem other hother) with hb | hb
      · exact (hbefore _ hb).asymm
      · rcases List.mem_cons.mp hb with he | ha
        · rw [he]
          exact not_nearer_self best
        · exact hafter _ ha
    · -- A label below the best one belongs to a centroid that the best one is nearer than.
      rintro label ⟨earlier, hearlier, hnone⟩
      by_contra hlt
      have h := hat label
      rw [List.getElem?_append_left (Nat.lt_of_not_le hlt), hearlier, Option.map_some] at h
      have hn := hbefore _ (List.mem_of_getElem? h)
      rw [← hdist] at hn
      exact hnone centroid (List.mem_of_getElem? hcentroid) hn

theorem nearest_isLeast {centroids : List (List α)} (hne : centroids ≠ []) (point : List α) :
    IsLeast {label | IsNearest centroids point label} (nearest centroids point) := by
  have hstart : Scanned (([] : List (List α)).map (squaredDistance point)) 0 none :=
    .unreached fun _ hx => absurd hx List.not_mem_nil
  obtain ⟨bestDistance, h⟩ := hstart.nearestFrom point centroids
  exact h.isLeast hne

end BuildAdvisor.Split
