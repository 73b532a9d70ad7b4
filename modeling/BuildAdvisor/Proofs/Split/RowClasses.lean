import BuildAdvisor.Proofs.Split.TwoRows

/-!
With a centroid for every point, labels are the classes of equal rows.

* `Covers` — every point has a centroid in its place, perhaps several;
* `Covers.nearest_eq_idxOf` — a point goes to the first of those;
* `Covers.update_eq` — a round moves no centroid: one with points has copies of itself, and one
  whose copies went to an earlier centroid has no points and stays;
* `covers_of_positions` — centroids at as many distinct positions as there are points cover them;
* `kmeans_labels_eq_idxOf`, `kmeans_row_classes` — so the labels of the first round are the last.
-/

set_option autoImplicit false

namespace BuildAdvisor.Split

/-- Centroids with the row of every point among them, all of one width. -/
structure Covers (width : Nat) (points centroids : List (List Rat)) : Prop where
  mem : ∀ p ∈ points, p ∈ centroids
  length : ∀ c ∈ centroids, c.length = width

/-! ## Rounds -/

namespace Covers

variable {width : Nat} {points centroids : List (List Rat)} (h : Covers width points centroids)

include h

theorem getElem?_nearest {p : List Rat} (hp : p ∈ points) :
    centroids[nearest centroids p]? = some p :=
  Split.getElem?_nearest (fun c hc => (h.length c hc).trans (h.length p (h.mem p hp)).symm)
    (h.mem p hp)

theorem nearest_eq_idxOf {p : List Rat} (hp : p ∈ points) :
    nearest centroids p = centroids.idxOf p := by
  have hlt : centroids.idxOf p < centroids.length := List.idxOf_lt_length_of_mem (h.mem p hp)
  apply Nat.le_antisymm
  · -- No centroid is nearer than one in the place of the point.
    refine (nearest_isLeast (List.ne_nil_of_mem (h.mem p hp)) p).2 ⟨p, ?_, fun other _ hn => ?_⟩
    · rw [List.getElem?_eq_getElem hlt, List.getElem_idxOf]
    · have hnear := hn.2 rfl
      rw [squaredDistance_self] at hnear
      exact absurd (squaredDistance_nonneg p other) (not_le.mpr hnear)
  · by_contra hearlier
    have hother := List.not_of_lt_findIdx (not_le.mp hearlier)
    obtain ⟨hin, hat⟩ := List.getElem?_eq_some_iff.mp (h.getElem?_nearest hp)
    rw [hat, beq_self_eq_true] at hother
    cases hother

theorem members_eq {label : Nat} {centroid : List Rat} (hc : centroids[label]? = some centroid) :
    ∀ r ∈ members points (assign centroids points) label, r = centroid := by
  intro r hr
  rw [assign, members_map, List.mem_filter, beq_iff_eq] at hr
  have hat := h.getElem?_nearest hr.1
  rw [hr.2, hc] at hat
  exact (Option.some.inj hat).symm

theorem update_eq : update width points (assign centroids points) centroids = centroids := by
  refine List.ext_getElem? fun label => ?_
  rw [update, List.getElem?_mapIdx]
  cases hc : centroids[label]? with
  | none => rfl
  | some centroid =>
    rw [Option.map_some, moveCentroid]
    split
    next => rfl
    next hmembers =>
      have hwidth := h.length centroid (List.mem_of_getElem? hc)
      rw [mean_eq_of_forall_eq hwidth (by simpa using hmembers) (h.members_eq hc)]

theorem centroidsAt_eq (t : Nat) : centroidsAt width points centroids t = centroids :=
  centroidsAt_of_rest (t := 0) h.update_eq (Nat.zero_le t)

theorem labelsAt_eq (t : Nat) :
    labelsAt width points centroids t = points.map (centroids.idxOf ·) := by
  rw [labelsAt, h.centroidsAt_eq, assign]
  exact List.map_congr_left fun p hp => h.nearest_eq_idxOf hp

end Covers

/-! ## Runs -/

/-- Distinct positions, as many as there are, are all of them. -/
theorem covers_of_positions {width : Nat} {points : List (List Rat)} {seeds : List Nat}
    (hwidth : ∀ p ∈ points, p.length = width) (hlength : seeds.length = points.length)
    (hnodup : seeds.Nodup) (hlt : ∀ i ∈ seeds, i < points.length) :
    Covers width points (seeds.map fun i => points.getD i []) := by
  have hperm : seeds.Perm (List.range points.length) := by
    refine (List.subperm_of_subset hnodup fun i hi => ?_).perm_of_length_le ?_
    · exact List.mem_range.mpr (hlt i hi)
    · rw [List.length_range, hlength]
  constructor
  · intro p hp
    obtain ⟨i, hi, rfl⟩ := List.mem_iff_getElem.mp hp
    refine List.mem_map.mpr ⟨i, hperm.mem_iff.mpr (List.mem_range.mpr hi), ?_⟩
    exact List.getD_eq_getElem _ _ hi
  · intro c hc
    obtain ⟨i, hi, rfl⟩ := List.mem_map.mp hc
    rw [List.getD_eq_getElem _ _ (hlt i hi)]
    exact hwidth _ (List.getElem_mem (hlt i hi))

section Run

variable {σ : Type} {sample : Random.Sampler σ} (hs : sample.Distinct) {width : Nat}
  {points : List (List Rat)} (hne : points ≠ []) (hwidth : ∀ p ∈ points, p.length = width)
  {k rounds : Nat} (hk : points.length ≤ k) (hr : 1 ≤ rounds) (s : σ)

include hs hne hwidth hk hr

/-- A point has the number of the first seed with its row. -/
theorem kmeans_labels_eq_idxOf :
    let seeds := (sample points.length points.length s).1.map fun i => points.getD i []
    Covers width points seeds ∧
      (kmeans sample points k rounds s).1.labels = points.map (seeds.idxOf ·) := by
  intro seeds
  have hclamp : clampClusters k points.length = points.length := by
    have hpos := List.length_pos_of_ne_nil hne
    rw [clampClusters]
    omega
  have hcovers : Covers width points seeds :=
    covers_of_positions hwidth (hs.length _ _ s le_rfl) (hs.nodup _ _ s le_rfl)
      (hs.lt _ _ s le_rfl)
  obtain ⟨cap, rfl⟩ : ∃ cap, rounds = cap + 1 := Nat.exists_eq_add_of_le' hr
  obtain ⟨last, -, hlabels⟩ := kmeans_labelsAt sample hne k cap s (by rw [hclamp])
  rw [headD_length hne hwidth, hcovers.labelsAt_eq] at hlabels
  exact ⟨hcovers, hlabels⟩

/-- One round is enough, however many follow. -/
theorem kmeans_row_classes :
    (kmeans sample points k rounds s).1.labels.length = points.length ∧
      (∀ label ∈ (kmeans sample points k rounds s).1.labels, label < points.length) ∧
      ∀ (i j : Nat) (x y : List Rat), points[i]? = some x → points[j]? = some y →
        ((kmeans sample points k rounds s).1.labels[i]? =
          (kmeans sample points k rounds s).1.labels[j]? ↔ x = y) := by
  obtain ⟨hcovers, hlabels⟩ := kmeans_labels_eq_idxOf hs hne hwidth hk hr s
  rw [hlabels]
  refine ⟨List.length_map _, fun label hl => ?_, fun i j x y hx hy => ?_⟩
  · obtain ⟨p, hp, rfl⟩ := List.mem_map.mp hl
    have hlt := List.idxOf_lt_length_of_mem (hcovers.mem p hp)
    rwa [List.length_map, hs.length _ _ s le_rfl] at hlt
  · rw [List.getElem?_map, List.getElem?_map, hx, hy, Option.map_some, Option.map_some,
      Option.some_inj]
    exact List.idxOf_inj (hcovers.mem x (List.mem_of_getElem? hx))

end Run

section Example

/-- The second point repeats the first, and the last repeats the third. -/
def repeatedRows : List (List Rat) := [[1, 0], [1, 0], [0, 2], [3, 3], [0, 2]]

def repeatedRowsLabels : List Nat :=
  (kmeans Random.Generator.sample repeatedRows 7 1 (.ofList [5, 9])).1.labels

theorem repeatedRows_classes :
    repeatedRowsLabels.length = 5 ∧ (∀ label ∈ repeatedRowsLabels, label < 5) ∧
      repeatedRowsLabels[0]? = repeatedRowsLabels[1]? ∧
      repeatedRowsLabels[2]? = repeatedRowsLabels[4]? ∧
      repeatedRowsLabels[1]? ≠ repeatedRowsLabels[2]? ∧
      repeatedRowsLabels[3]? ≠ repeatedRowsLabels[4]? := by
  have hwidth : ∀ p ∈ repeatedRows, p.length = 2 := by decide
  obtain ⟨hlength, hlt, hiff⟩ := kmeans_row_classes Random.Generator.sample_distinct
    (List.cons_ne_nil _ _) hwidth (k := 7) (by decide) (Nat.le_refl 1) (.ofList [5, 9])
  refine ⟨hlength, hlt, (hiff 0 1 _ _ rfl rfl).mpr rfl, (hiff 2 4 _ _ rfl rfl).mpr rfl,
    fun he => ?_, fun he => ?_⟩
  · exact absurd ((hiff 1 2 _ _ rfl rfl).mp he) (by decide)
  · exact absurd ((hiff 3 4 _ _ rfl rfl).mp he) (by decide)

end Example

end BuildAdvisor.Split
