import BuildAdvisor.Split.Clustering
import BuildAdvisor.Proofs.Random.Sample

/-!
What k-means says about labels, whatever its arithmetic does.

* `nearest_lt`, `lt_of_mem_assign` — a label is the number of a centroid;
* `refine_labels`, `kmeans_labels` — in the end the label of a point is a function of its row
  alone, so that points with equal rows share a label;
* `length_kmeans_labels`, `lt_of_mem_kmeans_labels` — there is a label for each point, below the
  number of clusters;
* `clusterOver_labels` — labels as a function of the rows of a co-usage matrix;
* `filter_zip_map`, `members_map` — the elements with one label, where labels are a function of the
  elements;
* `clusterCount_le`, `lt_clusterCount` — how many labels are counted.

Nothing is assumed of the number type: distances may round, overflow or be undefined.
-/

set_option autoImplicit false

namespace BuildAdvisor.Split

section Rounds

variable {α : Type} [Scalar α]

theorem nearestFrom_lt (point : List α) {bound best index : Nat} (bestDistance : Option α)
    (centroids : List (List α)) (hb : best < bound) (hi : index + centroids.length ≤ bound) :
    nearestFrom point best bestDistance index centroids < bound := by
  induction centroids generalizing best bestDistance index with
  | nil => exact hb
  | cons centroid rest ih =>
    rw [List.length_cons] at hi
    simp only [nearestFrom]
    split
    · exact ih _ (by omega) (by omega)
    · exact ih _ hb (by omega)

/-- Label zero stands for no centroid as well. -/
theorem nearest_lt (centroids : List (List α)) (point : List α) :
    nearest centroids point < max 1 centroids.length :=
  nearestFrom_lt point none centroids (by omega) (by omega)

theorem lt_of_mem_assign {centroids points : List (List α)} (hne : centroids ≠ []) {label : Nat}
    (hl : label ∈ assign centroids points) : label < centroids.length := by
  obtain ⟨point, -, rfl⟩ := List.mem_map.mp hl
  have hpos : 0 < centroids.length := List.length_pos_of_ne_nil hne
  have hlt := nearest_lt centroids point
  omega

theorem length_update (width : Nat) (points : List (List α)) (labels : List Nat)
    (centroids : List (List α)) :
    (update width points labels centroids).length = centroids.length := by
  rw [update, List.length_mapIdx]

theorem refine_labels (width : Nat) (points : List (List α)) (isFirst : Bool) (rounds : Nat)
    (centroids : List (List α)) (label : List α → Nat)
    (hl : ∀ p, label p < max 1 centroids.length) :
    ∃ label' : List α → Nat, (∀ p, label' p < max 1 centroids.length) ∧
      (refine width points isFirst rounds centroids (points.map label)).labels =
        points.map label' := by
  induction rounds generalizing isFirst centroids label with
  | zero => exact ⟨label, hl, rfl⟩
  | succ rounds ih =>
    simp only [refine]
    split
    · exact ⟨nearest centroids, nearest_lt centroids, rfl⟩
    · -- A round replaces the labels by those of the nearest centroids and keeps the number of
      -- centroids, so the bound carries over.
      have hu := length_update width points (assign centroids points) centroids
      have h := ih false (update width points (assign centroids points) centroids)
        (nearest centroids) (by rw [hu]; exact nearest_lt centroids)
      rw [hu] at h
      exact h

theorem kmeans_labels {σ : Type} (sample : Random.Sampler σ) (points : List (List α))
    (k rounds : Nat) (s : σ) :
    ∃ label : List α → Nat,
      (∀ p, label p <
        max 1 (sample points.length (clampClusters k points.length) s).1.length) ∧
      (kmeans sample points k rounds s).1.labels = points.map label := by
  rw [kmeans]
  split
  next he =>
    obtain rfl := List.isEmpty_iff.mp he
    exact ⟨fun _ => 0, fun _ => Nat.lt_of_lt_of_le Nat.one_pos (Nat.le_max_left 1 _), rfl⟩
  next =>
    simp only [refineFrom]
    have h := refine_labels ((points.headD []).length) points true rounds
      ((sample points.length (clampClusters k points.length) s).1.map fun i => points.getD i [])
      (fun _ => 0) (fun _ => Nat.lt_of_lt_of_le Nat.one_pos (Nat.le_max_left 1 _))
    rw [List.length_map] at h
    exact h

end Rounds

/-! ## Bounds -/

theorem one_le_clampClusters (k rows : Nat) : 1 ≤ clampClusters k rows :=
  Nat.le_max_left _ _

theorem clampClusters_le (k : Nat) {rows : Nat} (h : 0 < rows) : clampClusters k rows ≤ rows :=
  Nat.max_le.mpr ⟨h, Nat.min_le_right _ _⟩

section Run

variable {α : Type} [Scalar α] {σ : Type}

theorem length_kmeans_labels (sample : Random.Sampler σ) (points : List (List α)) (k rounds : Nat)
    (s : σ) : (kmeans sample points k rounds s).1.labels.length = points.length := by
  obtain ⟨label, -, hlabels⟩ := kmeans_labels sample points k rounds s
  rw [hlabels, List.length_map]

theorem lt_of_mem_kmeans_labels {sample : Random.Sampler σ} (hs : sample.Distinct)
    (points : List (List α)) (k rounds : Nat) (s : σ) {l : Nat}
    (hl : l ∈ (kmeans sample points k rounds s).1.labels) : l < clampClusters k points.length := by
  obtain ⟨label, hlt, hlabels⟩ := kmeans_labels sample points k rounds s
  rw [hlabels] at hl
  obtain ⟨point, hp, rfl⟩ := List.mem_map.mp hl
  have hlabel := hlt point
  rwa [hs.length _ _ s (clampClusters_le k (List.length_pos_of_mem hp)),
    Nat.max_eq_right (one_le_clampClusters k points.length)] at hlabel

end Run

/-! ## Labels of a co-usage matrix -/

section Matrix

variable {α : Type} [Scalar α] (κ : Type) [Scalar κ] [Exponential κ] {σ : Type}

@[simp] theorem length_affinity (matrix : List (List Nat)) :
    (affinity (α := κ) matrix).length = matrix.length := by
  simp only [affinity, List.length_map]

theorem clusterOver_labels (sample : Random.Sampler σ) (matrix : List (List Nat)) (k : Nat)
    (s : σ) :
    ∃ label : List Nat → Nat,
      (∀ row, label row <
        max 1 (sample matrix.length (clampClusters k matrix.length) s).1.length) ∧
      (clusterOver (α := α) κ sample matrix k s).1.labels = matrix.map label := by
  obtain ⟨label, hb, hl⟩ := kmeans_labels sample (affinity (α := κ) matrix) k maxRounds s
  rw [length_affinity] at hb
  refine ⟨fun row => label (row.map fun (count : Nat) =>
    bell ((count : κ) / if greatest matrix = 0 then 1.0 else (greatest matrix : κ))),
    fun row => hb _, ?_⟩
  change (kmeans sample (affinity (α := κ) matrix) k maxRounds s).1.labels = _
  rw [hl, affinity, List.map_map]
  rfl

theorem clusterOver_eq_ofLabels (sample : Random.Sampler σ) (matrix : List (List Nat)) (k : Nat)
    (s : σ) :
    (clusterOver (α := α) κ sample matrix k s).1 =
      Clustering.ofLabels (clusterOver (α := α) κ sample matrix k s).1.labels :=
  rfl

end Matrix

/-! ## The elements with one label -/

theorem filter_zip_map {γ : Type} (xs : List γ) (label : γ → Nat) (l : Nat) :
    ((xs.zip (xs.map label)).filter fun (_, m) => m == l).map Prod.fst =
      xs.filter fun x => label x == l := by
  rw [← List.map_prod_left_eq_zip, List.filter_map, List.map_map]
  exact List.map_id _

theorem members_map {α : Type} (points : List (List α)) (label : List α → Nat) (l : Nat) :
    members points (points.map label) l = points.filter fun p => label p == l :=
  filter_zip_map points label l

/-! ## Counting labels -/

theorem foldl_max_isGreatest (start : Nat) (xs : List Nat) :
    xs.foldl max start ∈ start :: xs ∧ ∀ x ∈ start :: xs, x ≤ xs.foldl max start :=
  List.max?_eq_some_iff.mp List.max?_cons'

theorem lt_clusterCount {labels : List Nat} {l : Nat} (h : l ∈ labels) :
    l < clusterCount labels :=
  (foldl_max_isGreatest 0 (labels.map (· + 1))).2 (l + 1)
    (List.mem_cons_of_mem 0 (List.mem_map.mpr ⟨l, h, rfl⟩))

theorem clusterCount_le {labels : List Nat} {bound : Nat} (h : ∀ l ∈ labels, l < bound) :
    clusterCount labels ≤ bound := by
  rcases List.mem_cons.mp (foldl_max_isGreatest 0 (labels.map (· + 1))).1 with he | hm
  · rw [clusterCount, he]
    exact Nat.zero_le bound
  · obtain ⟨l, hl, he⟩ := List.mem_map.mp hm
    rw [clusterCount, ← he]
    exact h l hl

end BuildAdvisor.Split
