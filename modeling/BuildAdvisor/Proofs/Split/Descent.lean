import BuildAdvisor.Proofs.Split.Distance
import BuildAdvisor.Proofs.Table

/-!
No round of k-means makes the clustering worse.

* `cost` — the distances of the points to the centroids of their labels;
* `cost_assign_le` — no labels cost less than the numbers of the nearest centroids;
* `cost_update` — what is saved by moving centroids to the means of their points, exactly;
* `costAt_antitone` — so the cost of a round is at most that of any before it;
* `labelsAt_of_return` — labels that a later round gives again are given by every round between and
  after, because such a round moves no centroid;
* `refine_descends` — both for the rounds that a refinement runs.
-/

set_option autoImplicit false

namespace BuildAdvisor.Split

/-- The distances of the points to the centroids of their labels, added up. -/
def cost {α : Type} [Scalar α] (points centroids : List (List α)) (labels : List Nat) : α :=
  Scalar.sum (List.zipWith
    (fun point label => squaredDistance point (centroids.getD label [])) points labels)

theorem cost_map (points centroids : List (List Rat)) (label : List Rat → Nat) :
    cost points centroids (points.map label) =
      (points.map fun p => squaredDistance p (centroids.getD (label p) [])).sum := by
  rw [cost, Rational.sum_eq, List.zipWith_map_right, List.zipWith_self]

/-! ## The two halves of a round -/

section Halves

variable {width : Nat} {points centroids : List (List Rat)} {label : List Rat → Nat}

theorem cost_assign_le (hl : ∀ p ∈ points, label p < centroids.length) :
    cost points centroids (assign centroids points) ≤ cost points centroids (points.map label) := by
  rw [assign, cost_map, cost_map]
  refine List.sum_le_sum fun p hp => ?_
  have hlt := hl p hp
  obtain ⟨c, hc, hmin⟩ := nearest_spec (List.ne_nil_of_length_pos (Nat.zero_lt_of_lt hlt)) p
  rw [List.getD_eq_getElem?_getD, hc, Option.getD_some, List.getD_eq_getElem _ _ hlt]
  exact hmin _ (List.getElem_mem hlt)

/-- The cost taken label by label. -/
theorem cost_eq_sum_labels {clusters : Nat} (hl : ∀ p ∈ points, label p < clusters) :
    cost points centroids (points.map label) =
      ((List.range clusters).map fun l => ((points.filter fun p => label p == l).map
        fun p => squaredDistance p (centroids.getD l [])).sum).sum := by
  rw [cost_map, ← sum_fibres_weight label _ (List.range clusters) points List.nodup_range
    fun p hp => List.mem_range.mpr (hl p hp)]
  refine congrArg List.sum (List.map_congr_left fun l _ => congrArg List.sum ?_)
  refine List.map_congr_left fun p hp => ?_
  rw [beq_iff_eq.mp (List.mem_filter.mp hp).2]

theorem getD_update (labels : List Nat) {l : Nat} (hl : l < centroids.length) :
    (update width points labels centroids).getD l [] =
      moveCentroid width (members points labels l) (centroids.getD l []) := by
  rw [List.getD_eq_getElem?_getD, List.getD_eq_getElem?_getD, update, List.getElem?_mapIdx,
    List.getElem?_eq_getElem hl]
  rfl

theorem sum_distances_moveCentroid {rows : List (List Rat)}
    (hrows : ∀ r ∈ rows, r.length = width) {c : List Rat} (hc : c.length = width) :
    (rows.map fun r => squaredDistance r c).sum =
      (rows.map fun r => squaredDistance r (moveCentroid width rows c)).sum +
        (rows.length : Rat) * squaredDistance (moveCentroid width rows c) c := by
  rw [moveCentroid]
  split
  next hempty => simp [List.isEmpty_iff.mp hempty]
  next => exact sum_distances hrows hc

variable (hp : ∀ p ∈ points, p.length = width) (hc : ∀ c ∈ centroids, c.length = width)

/-- What moving a centroid saves is its way, once for each of its points. -/
def saving (width : Nat) (points centroids : List (List Rat)) (labels : List Nat) (l : Nat) : Rat :=
  ((members points labels l).length : Rat) *
    squaredDistance ((update width points labels centroids).getD l []) (centroids.getD l [])

theorem saving_nonneg (labels : List Nat) (l : Nat) :
    0 ≤ saving width points centroids labels l :=
  mul_nonneg (Nat.cast_nonneg _) (squaredDistance_nonneg _ _)

variable (hl : ∀ p ∈ points, label p < centroids.length)

include hp hc hl in
theorem cost_update :
    cost points centroids (points.map label) =
      cost points (update width points (points.map label) centroids) (points.map label) +
        ((List.range centroids.length).map
          (saving width points centroids (points.map label))).sum := by
  rw [cost_eq_sum_labels hl, cost_eq_sum_labels hl, ← List.sum_map_add]
  refine congrArg List.sum (List.map_congr_left fun l hlt => ?_)
  have hlt := List.mem_range.mp hlt
  have hrows : ∀ r ∈ points.filter fun p => label p == l, r.length = width :=
    fun r hr => hp r (List.mem_filter.mp hr).1
  have hwidth : (centroids.getD l []).length = width := by
    rw [List.getD_eq_getElem _ _ hlt]
    exact hc _ (List.getElem_mem hlt)
  rw [saving, getD_update _ hlt, members_map]
  exact sum_distances_moveCentroid hrows hwidth

include hp hc hl in
theorem cost_update_le :
    cost points (update width points (points.map label) centroids) (points.map label) ≤
      cost points centroids (points.map label) := by
  rw [cost_update hp hc hl]
  refine le_add_of_nonneg_right (List.sum_nonneg fun x hx => ?_)
  obtain ⟨l, -, rfl⟩ := List.mem_map.mp hx
  exact saving_nonneg _ l

include hp hc hl in
/-- The mean is the only place of least cost, so centroids that save nothing do not move. -/
theorem update_eq_of_cost_le
    (h : cost points centroids (points.map label) ≤
      cost points (update width points (points.map label) centroids) (points.map label)) :
    update width points (points.map label) centroids = centroids := by
  have hnonneg : ∀ x ∈ (List.range centroids.length).map
      (saving width points centroids (points.map label)), 0 ≤ x := by
    intro x hx
    obtain ⟨l, -, rfl⟩ := List.mem_map.mp hx
    exact saving_nonneg _ l
  have hsum : ((List.range centroids.length).map
      (saving width points centroids (points.map label))).sum = 0 := by
    rw [cost_update hp hc hl] at h
    exact le_antisymm (by linarith) (List.sum_nonneg hnonneg)
  refine List.ext_getElem (length_update _ _ _ _) fun l hlu hlt => ?_
  have hzero : saving width points centroids (points.map label) l = 0 :=
    List.all_zero_of_le_zero_le_of_sum_eq_zero hnonneg hsum
      (List.mem_map_of_mem (List.mem_range.mpr hlt))
  rw [← List.getD_eq_getElem _ [] hlu, ← List.getD_eq_getElem _ [] hlt]
  rcases mul_eq_zero.mp hzero with hempty | hdist
  · rw [getD_update _ hlt, moveCentroid,
      List.length_eq_zero_iff.mp (Nat.cast_eq_zero.mp hempty)]
    rfl
  · refine (squaredDistance_eq_zero_iff ?_).mp hdist
    rw [List.getD_eq_getElem _ _ hlu, List.getD_eq_getElem _ _ hlt,
      length_of_mem_update hc points _ _ (List.getElem_mem hlu), hc _ (List.getElem_mem hlt)]

/-- Once centroids have moved, the cost no longer depends on where they were. -/
theorem cost_update_congr {centroids' : List (List Rat)}
    (hl : ∀ p ∈ points, label p < centroids.length)
    (hl' : ∀ p ∈ points, label p < centroids'.length) :
    cost points (update width points (points.map label) centroids) (points.map label) =
      cost points (update width points (points.map label) centroids') (points.map label) := by
  rw [cost_map, cost_map]
  refine congrArg List.sum (List.map_congr_left fun p hp => ?_)
  have hm : members points (points.map label) (label p) ≠ [] :=
    members_ne_nil (List.length_map label).le (List.mem_map_of_mem hp)
  rw [List.getD_eq_getElem?_getD, List.getD_eq_getElem?_getD, getElem?_update width (hl p hp) hm,
    getElem?_update width (hl' p hp) hm]

end Halves

/-! ## The sequence of rounds -/

section Rounds

variable {width : Nat} {points centroids : List (List Rat)}

/-- The cost after the labels of a round are given. -/
def costAt (width : Nat) (points centroids : List (List Rat)) (t : Nat) : Rat :=
  cost points (centroidsAt width points centroids t) (labelsAt width points centroids t)

/-- The cost after the centroids of a round have moved as well. -/
def movedCostAt (width : Nat) (points centroids : List (List Rat)) (t : Nat) : Rat :=
  cost points (centroidsAt width points centroids (t + 1)) (labelsAt width points centroids t)

theorem nearest_lt_length (hne : centroids ≠ []) (t u : Nat) (p : List Rat) :
    nearest (centroidsAt width points centroids t) p <
      (centroidsAt width points centroids u).length := by
  have hpos : 0 < centroids.length := List.length_pos_of_ne_nil hne
  have hlt := nearest_lt (centroidsAt width points centroids t) p
  rw [length_centroidsAt] at hlt ⊢
  omega

variable (hp : ∀ p ∈ points, p.length = width) (hc : ∀ c ∈ centroids, c.length = width)
  (hne : centroids ≠ [])

include hne in
theorem costAt_succ_le (t : Nat) :
    costAt width points centroids (t + 1) ≤ movedCostAt width points centroids t :=
  cost_assign_le fun p _ => nearest_lt_length hne t (t + 1) p

include hp hc hne

theorem movedCostAt_le (t : Nat) :
    movedCostAt width points centroids t ≤ costAt width points centroids t :=
  cost_update_le hp (length_of_mem_centroidsAt hc t) fun p _ => nearest_lt_length hne t t p

theorem costAt_antitone : Antitone (costAt width points centroids) :=
  antitone_nat_of_succ_le fun t =>
    (costAt_succ_le hne t).trans (movedCostAt_le hp hc hne t)

theorem movedCostAt_antitone : Antitone (movedCostAt width points centroids) :=
  antitone_nat_of_succ_le fun t =>
    (movedCostAt_le hp hc hne (t + 1)).trans (costAt_succ_le hne t)

omit hp hc in
theorem movedCostAt_congr {t u : Nat}
    (h : labelsAt width points centroids t = labelsAt width points centroids u) :
    movedCostAt width points centroids t = movedCostAt width points centroids u := by
  rw [movedCostAt, movedCostAt, centroidsAt_succ, centroidsAt_succ, h, labelsAt_eq_map]
  exact cost_update_congr (fun p _ => nearest_lt_length hne u t p)
    (fun p _ => nearest_lt_length hne u u p)

/-- Between equal labels the cost of moved centroids cannot fall, and then none moves. -/
theorem centroidsAt_of_return {t u : Nat} (htu : t < u)
    (h : labelsAt width points centroids u = labelsAt width points centroids t) :
    centroidsAt width points centroids (t + 2) = centroidsAt width points centroids (t + 1) := by
  refine update_eq_of_cost_le hp (length_of_mem_centroidsAt hc (t + 1))
    (fun p _ => nearest_lt_length hne (t + 1) (t + 1) p) ?_
  calc
    costAt width points centroids (t + 1) ≤ movedCostAt width points centroids t :=
      costAt_succ_le hne t
    _ = movedCostAt width points centroids u := (movedCostAt_congr hne h).symm
    _ ≤ movedCostAt width points centroids (t + 1) := movedCostAt_antitone hp hc hne htu

theorem centroidsAt_eq_of_return {t u : Nat} (htu : t < u)
    (h : labelsAt width points centroids u = labelsAt width points centroids t) {v : Nat}
    (hv : t < v) : centroidsAt width points centroids v = centroidsAt width points centroids u := by
  have hrest := centroidsAt_of_return hp hc hne htu h
  rw [centroidsAt_of_rest hrest hv, centroidsAt_of_rest hrest htu]

theorem labelsAt_of_return {t u : Nat} (htu : t < u)
    (h : labelsAt width points centroids u = labelsAt width points centroids t) {v : Nat}
    (hv : t < v) : labelsAt width points centroids v = labelsAt width points centroids t := by
  rw [← h, labelsAt, labelsAt, centroidsAt_eq_of_return hp hc hne htu h hv]

theorem costAt_of_return {t u : Nat} (htu : t < u)
    (h : labelsAt width points centroids u = labelsAt width points centroids t) {v : Nat}
    (hv : t < v) : costAt width points centroids v = costAt width points centroids u := by
  rw [costAt, costAt, labelsAt, labelsAt, centroidsAt_eq_of_return hp hc hne htu h hv]

end Rounds

/-- Neither half of a round adds to the cost, and labels that have been left do not come back. -/
theorem refine_descends {width : Nat} {points centroids : List (List Rat)}
    (hp : ∀ p ∈ points, p.length = width) (hc : ∀ c ∈ centroids, c.length = width)
    (hne : centroids ≠ []) :
    (∀ t, costAt width points centroids (t + 1) ≤ costAt width points centroids t) ∧
      (∀ t u v, t < u → t < v →
        labelsAt width points centroids u = labelsAt width points centroids t →
          labelsAt width points centroids v = labelsAt width points centroids t ∧
            costAt width points centroids v = costAt width points centroids u) ∧
      ∀ cap labels, ∃ last, LastRound (labelsAt width points centroids) cap last ∧
        (refine width points true (cap + 1) centroids labels).labels =
          labelsAt width points centroids last ∧
        ∀ t u, t + 1 < u → u ≤ last →
          labelsAt width points centroids u ≠ labelsAt width points centroids t := by
  refine ⟨fun t => costAt_antitone hp hc hne (Nat.le_succ t), fun t u v htu hv h =>
    ⟨labelsAt_of_return hp hc hne htu h hv, costAt_of_return hp hc hne htu h hv⟩,
    fun cap labels => ?_⟩
  obtain ⟨last, hlast, hr⟩ := refine_labelsAt width points centroids cap labels
  refine ⟨last, hlast, hr, fun t u htu hu h => ?_⟩
  -- A return would have made the round after `t` the last one.
  exact hlast.changed t (Nat.lt_of_lt_of_le htu hu)
    (labelsAt_of_return hp hc hne (Nat.lt_of_succ_lt htu) h (Nat.lt_succ_self t))

section Example

def twoSteps : List (List Rat) := [[0], [1], [10], [11]]

theorem twoSteps_descends :
    costAt 1 twoSteps [[0], [1]] 0 = 181 ∧
      costAt 1 twoSteps [[0], [1]] 1 ≤ 181 ∧
      labelsAt 1 twoSteps [[0], [1]] 0 = [0, 1, 1, 1] ∧
      ∀ t, labelsAt 1 twoSteps [[0], [1]] (t + 1) ≠ [0, 1, 1, 1] := by
  have hcost : costAt 1 twoSteps [[0], [1]] 0 = 181 := by decide +kernel
  have hfirst : labelsAt 1 twoSteps [[0], [1]] 0 = [0, 1, 1, 1] := by decide +kernel
  have hsecond : labelsAt 1 twoSteps [[0], [1]] 1 = [0, 0, 1, 1] := by decide +kernel
  obtain ⟨hdescends, hreturn, -⟩ :=
    @refine_descends 1 twoSteps [[0], [1]] (by decide) (by decide) (by decide)
  refine ⟨hcost, hcost ▸ hdescends 0, hfirst, fun t ht => ?_⟩
  obtain ⟨hstay, -⟩ :=
    hreturn 0 (t + 1) 1 (Nat.succ_pos t) Nat.one_pos (ht.trans hfirst.symm)
  rw [hfirst, hsecond] at hstay
  exact absurd hstay (by decide)

end Example

end BuildAdvisor.Split
