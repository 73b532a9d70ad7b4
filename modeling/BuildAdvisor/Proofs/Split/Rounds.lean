import BuildAdvisor.Proofs.Split.Settled

/-!
The rounds of k-means as a sequence.

* `centroidsAt`, `labelsAt` — the centroids after some rounds, and the labels that they give;
* `centroidsAt_of_rest` — centroids that a round leaves in place are left so by all later rounds;
* `length_centroidsAt`, `length_of_mem_centroidsAt` — centroids keep their number and
  the width they start with;
* `LastRound` — the round that ends a refinement: the first one that changes no label, or the last
  one allowed;
* `refine_labelsAt`, `kmeans_labelsAt` — a refinement returns the labels of its last round.
-/

set_option autoImplicit false

namespace BuildAdvisor.Split

variable {α : Type} [Scalar α]

/-! ## Widths -/

@[simp] theorem length_mean (width : Nat) (rows : List (List α)) :
    (mean width rows).length = width := by
  rw [mean_eq_columnMean, columnMean, List.length_map, List.length_range]

theorem length_of_mem_update {width : Nat} {centroids : List (List α)}
    (hc : ∀ c ∈ centroids, c.length = width) (points : List (List α)) (labels : List Nat) :
    ∀ c ∈ update width points labels centroids, c.length = width := by
  intro c hm
  obtain ⟨i, hi, rfl⟩ := List.mem_mapIdx.mp hm
  rw [moveCentroid]
  split
  · exact hc _ (List.getElem_mem hi)
  · exact length_mean width _

/-! ## The sequence -/

section Sequence

variable (width : Nat) (points centroids : List (List α))

/-- Labels are given first, then the centroids move. -/
def centroidsAt : Nat → List (List α)
  | 0 => centroids
  | t + 1 => update width points (assign (centroidsAt t) points) (centroidsAt t)

def labelsAt (t : Nat) : List Nat :=
  assign (centroidsAt width points centroids t) points

theorem centroidsAt_succ (t : Nat) :
    centroidsAt width points centroids (t + 1) =
      update width points (labelsAt width points centroids t)
        (centroidsAt width points centroids t) :=
  rfl

theorem labelsAt_eq_map (t : Nat) :
    labelsAt width points centroids t =
      points.map (nearest (centroidsAt width points centroids t)) :=
  rfl

@[simp] theorem length_centroidsAt (t : Nat) :
    (centroidsAt width points centroids t).length = centroids.length := by
  induction t with
  | zero => rfl
  | succ t ih => rw [centroidsAt_succ, length_update, ih]

variable {width points centroids}

theorem centroidsAt_of_rest {t : Nat}
    (h : centroidsAt width points centroids (t + 1) = centroidsAt width points centroids t)
    {u : Nat} (hu : t ≤ u) :
    centroidsAt width points centroids u = centroidsAt width points centroids t := by
  obtain ⟨n, rfl⟩ := Nat.exists_eq_add_of_le hu
  induction n with
  | zero => rfl
  | succ n ih =>
    rw [← Nat.add_assoc, centroidsAt_succ, labelsAt, ih (Nat.le_add_right t n)]
    exact h

theorem length_of_mem_centroidsAt (hc : ∀ c ∈ centroids, c.length = width) (t : Nat) :
    ∀ c ∈ centroidsAt width points centroids t, c.length = width := by
  induction t with
  | zero => exact hc
  | succ t ih => exact length_of_mem_update ih points _

end Sequence

/-! ## The end of a refinement -/

/-- Rounds are counted from zero, and the first one ends a refinement only if it is the last
one allowed. -/
structure LastRound (labels : Nat → List Nat) (cap last : Nat) : Prop where
  le_cap : last ≤ cap
  changed : ∀ t, t + 1 < last → labels (t + 1) ≠ labels t
  ended : last = cap ∨ ∃ t, last = t + 1 ∧ labels (t + 1) = labels t

theorem LastRound.pos {labels : Nat → List Nat} {cap last : Nat} (h : LastRound labels cap last)
    (hc : 0 < cap) : 0 < last := by
  rcases h.ended with he | ⟨t, he, -⟩
  · exact he ▸ hc
  · exact he ▸ Nat.succ_pos t

/-- The induction is on the rounds still allowed, with all rounds before `t` known to have
changed some label. -/
theorem refine_from_labelsAt (width : Nat) (points centroids : List (List α)) (rounds t : Nat)
    (labels : List Nat) (hlabels : ∀ u, t = u + 1 → labels = labelsAt width points centroids u)
    (hchanged : ∀ u, u + 1 < t →
      labelsAt width points centroids (u + 1) ≠ labelsAt width points centroids u) :
    ∃ last, LastRound (labelsAt width points centroids) (t + rounds) last ∧
      (refine width points (t == 0) (rounds + 1) (centroidsAt width points centroids t)
        labels).labels = labelsAt width points centroids last := by
  induction rounds generalizing t labels with
  | zero =>
    refine ⟨t, ⟨Nat.le_refl t, hchanged, .inl rfl⟩, ?_⟩
    simp only [refine]
    split <;> rfl
  | succ rounds ih =>
    rw [refine]
    split
    next hend =>
      rw [Bool.and_eq_true, Bool.not_eq_true', beq_eq_false_iff_ne, beq_iff_eq] at hend
      obtain ⟨u, rfl⟩ := Nat.exists_eq_succ_of_ne_zero hend.1
      refine ⟨u + 1, ⟨Nat.le_add_right _ _, hchanged, .inr ⟨u, rfl, ?_⟩⟩, rfl⟩
      rw [← hlabels u rfl]
      exact hend.2
    next hend =>
      have hnext : ∀ u, u + 1 < t + 1 →
          labelsAt width points centroids (u + 1) ≠ labelsAt width points centroids u := by
        intro u hu
        rcases Nat.lt_succ_iff_lt_or_eq.mp hu with hlt | rfl
        · exact hchanged u hlt
        · intro he
          refine hend ?_
          rw [hlabels u rfl, ← he]
          simp [labelsAt]
      obtain ⟨last, hlast, hr⟩ := ih (t + 1) (labelsAt width points centroids t)
        (fun u hu => by rw [Nat.succ.inj hu]) hnext
      rw [Nat.add_right_comm] at hlast
      exact ⟨last, hlast, hr⟩

theorem refine_labelsAt (width : Nat) (points centroids : List (List α)) (cap : Nat)
    (labels : List Nat) :
    ∃ last, LastRound (labelsAt width points centroids) cap last ∧
      (refine width points true (cap + 1) centroids labels).labels =
        labelsAt width points centroids last := by
  have h := refine_from_labelsAt width points centroids cap 0 labels (fun _ hu => by cases hu)
    (fun _ hu => absurd hu (Nat.not_lt_zero _))
  rwa [Nat.zero_add] at h

theorem kmeans_labelsAt {σ : Type} (sample : Random.Sampler σ) {points : List (List α)}
    (hne : points ≠ []) (k cap : Nat) (s : σ) {seeds : List Nat}
    (hs : (sample points.length (clampClusters k points.length) s).1 = seeds) :
    ∃ last,
      LastRound (labelsAt (points.headD []).length points (seeds.map fun i => points.getD i []))
        cap last ∧
      (kmeans sample points k (cap + 1) s).1.labels =
        labelsAt (points.headD []).length points (seeds.map fun i => points.getD i []) last := by
  rw [kmeans, if_neg (by simpa using hne)]
  subst hs
  exact refine_labelsAt (points.headD []).length points _ cap (points.map fun _ => 0)

end BuildAdvisor.Split
