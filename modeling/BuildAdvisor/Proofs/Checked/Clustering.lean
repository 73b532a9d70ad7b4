import BuildAdvisor.Proofs.Checked.Operation
import BuildAdvisor.Proofs.Split.Labels

/-!
Clustering, with the faults of its operations.

* `affinity` — counts divided by the greatest of them;
* `accumulate`, `update` — the sums of a round, each point added to that of its label;
* `refine`, `kmeans` — rounds, from chosen rows;
* `clusterCount`, `qualityOf`, `clusterOver` — what is made of the labels.

A label is the number of a centroid, so it finds its counter and its sum; there is a centroid
because at least one row is chosen.  Rows are counted by counters that are large enough for a list
in memory.
-/

set_option autoImplicit false

namespace BuildAdvisor.Checked

open BuildAdvisor.Split (Partition Clustering)

/-! ## Affinity -/

section Affinity

variable {α : Type} [Scalar α] [Exponential α]

def affinity (matrix : List (List Nat)) : Except Fault (List (List α)) :=
  let top := Split.greatest matrix
  let scale : α := if top = 0 then 1.0 else (top : α)
  matrix.mapM fun row => row.mapM fun (count : Nat) => do
    let x ← divide (count : α) scale
    let y ← divide (-(x * x)) (Split.bandwidth : α)
    pure (Exponential.exp y)

theorem affinity_eq [Scalar.Counting α] (matrix : List (List Nat)) :
    affinity matrix = pure (Split.affinity matrix : List (List α)) := by
  have hscale : Scalar.isZero
      (if Split.greatest matrix = 0 then 1.0 else (Split.greatest matrix : α)) = false := by
    split
    next => exact Scalar.Counting.one_not_zero
    next h => exact Scalar.Counting.cast_not_zero (Nat.pos_of_ne_zero h)
  have hwidth : Scalar.isZero (Split.bandwidth : α) = false := Scalar.Counting.fifth_not_zero
  refine mapM_eq_pure fun row _ => mapM_eq_pure fun count _ => ?_
  rw [divide_eq hscale, pure_bind, divide_eq hwidth, pure_bind]
  rfl

end Affinity

/-! ## Rounds -/

section Rounds

variable {α : Type} [Scalar α]

def accumulate (width clusters : Nat) (pairs : List (List α × Nat)) :
    Except Fault (List Nat × List (List α)) :=
  pairs.foldlM
    (fun (counts, sums) (point, label) => do
      let counts ← modify counts label (increment UInt64.size)
      let sums ← modify sums label fun sum => pure (Split.addRow sum point)
      pure (counts, sums))
    (List.replicate clusters 0, List.replicate clusters (List.replicate width 0.0))

def moveCentroid (centroid sum : List α) (count : Nat) : Except Fault (List α) :=
  if 0 < count then sum.mapM fun x => divide x (count : α) else pure centroid

def update (width : Nat) (points : List (List α)) (labels : List Nat)
    (centroids : List (List α)) : Except Fault (List (List α)) := do
  let (counts, sums) ← accumulate width centroids.length (points.zip labels)
  (centroids.zip (sums.zip counts)).mapM fun (centroid, sum, count) =>
    moveCentroid centroid sum count

def refine (width : Nat) (points : List (List α)) (isFirst : Bool) :
    Nat → List (List α) → List Nat → Except Fault (Partition α)
  | 0, centroids, labels => pure ⟨centroids, labels, false⟩
  | rounds + 1, centroids, labels => do
    let next := Split.assign centroids points
    if !isFirst && next == labels then pure ⟨centroids, next, true⟩
    else
      let moved ← update width points next centroids
      refine width points false rounds moved next

def kmeans {σ : Type} (sample : Random.Sampler σ) (points : List (List α)) (k rounds : Nat)
    (s : σ) : Except Fault (Partition α × σ) :=
  if points.isEmpty then pure (⟨[], [], false⟩, s)
  else do
    let k ← clampCount 1 points.length k
    let first ← element points 0
    let (seeds, s) ← choose sample points.length k s
    let centroids ← seeds.mapM (element points)
    let partition ← refine first.length points true rounds centroids (points.map fun _ => 0)
    pure (partition, s)

/-! The rows that have a label among some pairs of a row and a label. -/

def rowsOf (pairs : List (List α × Nat)) (label : Nat) : List (List α) :=
  (pairs.filter fun (_, l) => l == label).map Prod.fst

omit [Scalar α] in
theorem rowsOf_append_self (pairs : List (List α × Nat)) (p : List α × Nat) :
    rowsOf (pairs ++ [p]) p.2 = rowsOf pairs p.2 ++ [p.1] := by
  simp [rowsOf]

omit [Scalar α] in
theorem rowsOf_append_of_ne (pairs : List (List α × Nat)) (p : List α × Nat) {label : Nat}
    (h : label ≠ p.2) : rowsOf (pairs ++ [p]) label = rowsOf pairs label := by
  simp [rowsOf, h.symm]

omit [Scalar α] in
theorem length_rowsOf_le (pairs : List (List α × Nat)) (label : Nat) :
    (rowsOf pairs label).length ≤ pairs.length := by
  rw [rowsOf, List.length_map]
  exact List.length_filter_le _ _

def countsOf (clusters : Nat) (pairs : List (List α × Nat)) : List Nat :=
  (List.range clusters).map fun l => (rowsOf pairs l).length

def sumsOf (width clusters : Nat) (pairs : List (List α × Nat)) : List (List α) :=
  (List.range clusters).map fun l =>
    (rowsOf pairs l).foldl Split.addRow (List.replicate width 0.0)

section Step

variable {clusters : Nat} {done : List (List α × Nat)} {p : List α × Nat} (hp : p.2 < clusters)

include hp

omit [Scalar α] in
theorem countsOf_step (hlen : done.length + 1 < UInt64.size) :
    modify (countsOf clusters done) p.2 (increment UInt64.size) =
      pure (countsOf clusters (done ++ [p])) := by
  have hle := length_rowsOf_le done p.2
  refine modify_map List.nodup_range (List.getElem?_range hp) ?_ ?_
  · rw [increment_eq (by omega), rowsOf_append_self, List.length_append, List.length_singleton]
  · intro l _ hne
    rw [rowsOf_append_of_ne done p hne]

theorem sumsOf_step (width : Nat) :
    modify (sumsOf width clusters done) p.2 (fun sum => pure (Split.addRow sum p.1)) =
      pure (sumsOf width clusters (done ++ [p])) := by
  refine modify_map List.nodup_range (List.getElem?_range hp) ?_ ?_
  · rw [rowsOf_append_self, List.foldl_append]
    rfl
  · intro l _ hne
    rw [rowsOf_append_of_ne done p hne]

end Step

theorem accumulate_eq (width : Nat) {clusters : Nat} {pairs : List (List α × Nat)}
    (hl : ∀ p ∈ pairs, p.2 < clusters) (hlen : pairs.length < UInt64.size) :
    accumulate width clusters pairs =
      pure (countsOf clusters pairs, sumsOf width clusters pairs) := by
  rw [accumulate, replicate_eq_map_range, replicate_eq_map_range]
  refine foldlM_eq_pure (fun done => (countsOf clusters done, sumsOf width clusters done)) pairs ?_
  intro done p todo he
  have hp : p.2 < clusters := hl p (by rw [he]; simp)
  rw [he, List.length_append, List.length_cons] at hlen
  simp only [countsOf_step hp (by omega : done.length + 1 < UInt64.size), sumsOf_step hp,
    pure_bind]

variable [Scalar.Counting α]

theorem moveCentroid_eq (width : Nat) (centroid : List α) (rows : List (List α)) :
    moveCentroid centroid (rows.foldl Split.addRow (List.replicate width 0.0)) rows.length =
      pure (Split.moveCentroid width rows centroid) := by
  rw [moveCentroid, Split.moveCentroid]
  cases rows with
  | nil => rfl
  | cons row rest =>
    have hpos : 0 < (row :: rest).length := Nat.succ_pos _
    rw [if_pos hpos, mapM_eq_pure fun x _ => divide_count x hpos]
    rfl

theorem update_eq (width : Nat) {points : List (List α)} {labels : List Nat}
    {centroids : List (List α)} (hl : ∀ l ∈ labels, l < centroids.length)
    (hlen : points.length < UInt64.size) :
    update width points labels centroids = pure (Split.update width points labels centroids) := by
  have hpairs : ∀ p ∈ points.zip labels, p.2 < centroids.length := fun p hp =>
    hl p.2 (List.of_mem_zip hp).2
  have hcount : (points.zip labels).length < UInt64.size := by
    rw [List.length_zip]
    omega
  rw [update, accumulate_eq width hpairs hcount, pure_bind, Split.update,
    List.mapIdx_eq_zipIdx_map, List.zipIdx_eq_zip_range', ← List.range_eq_range']
  simp only [countsOf, sumsOf]
  rw [List.zip_map', List.zip_map_right, List.mapM_map]
  exact mapM_eq_pure fun (p : List α × Nat) _ =>
    moveCentroid_eq width p.1 (rowsOf (points.zip labels) p.2)

theorem refine_eq (width : Nat) {points : List (List α)} (hlen : points.length < UInt64.size)
    (isFirst : Bool) (rounds : Nat) {centroids : List (List α)} (hne : centroids ≠ [])
    (labels : List Nat) :
    refine width points isFirst rounds centroids labels =
      pure (Split.refine width points isFirst rounds centroids labels) := by
  induction rounds generalizing isFirst centroids labels with
  | zero => rfl
  | succ rounds ih =>
    have hmoved : Split.update width points (Split.assign centroids points) centroids ≠ [] := by
      rw [← List.length_pos_iff, Split.length_update]
      exact List.length_pos_of_ne_nil hne
    simp only [refine, Split.refine]
    split
    next => rfl
    next =>
      rw [update_eq width (fun l => Split.lt_of_mem_assign hne) hlen, pure_bind, ih false hmoved]

theorem kmeans_eq {σ : Type} {sample : Random.Sampler σ} (hs : sample.Distinct)
    {points : List (List α)} (hlen : points.length < UInt64.size) (k rounds : Nat) (s : σ) :
    kmeans sample points k rounds s = pure (Split.kmeans sample points k rounds s) := by
  rw [kmeans, Split.kmeans]
  cases points with
  | nil => rfl
  | cons first rest =>
    have hpos : 0 < (first :: rest).length := Nat.succ_pos _
    have hclamp : clampCount 1 (first :: rest).length k =
        pure (Split.clampClusters k (first :: rest).length) :=
      clampCount_eq hpos k
    have hk := Split.clampClusters_le k hpos
    have hone := Split.one_le_clampClusters k (first :: rest).length
    generalize Split.clampClusters k (first :: rest).length = clusters at hclamp hk hone
    have hne : (sample (first :: rest).length clusters s).1.map
        (fun i => (first :: rest).getD i []) ≠ [] := by
      rw [← List.length_pos_iff, List.length_map, hs.length _ _ s hk]
      exact hone
    rw [if_neg (by simp), if_neg (by simp), hclamp, pure_bind,
      element_eq (show (first :: rest)[0]? = some first from rfl), pure_bind,
      choose_eq sample hk s, pure_bind]
    simp only [mapM_element [] (hs.lt _ _ s hk), pure_bind,
      refine_eq first.length hlen true rounds hne]
    rfl

end Rounds

/-! ## Labels -/

section Labels

def clusterCount (labels : List Nat) : Except Fault Nat :=
  match labels.max? with
  | none => pure 0
  | some top => increment UInt64.size top

theorem clusterCount_eq {labels : List Nat} {bound : Nat} (hb : bound < UInt64.size)
    (hl : ∀ l ∈ labels, l < bound) :
    clusterCount labels = pure (Split.clusterCount labels) := by
  rw [clusterCount]
  cases h : labels.max? with
  | none =>
    rw [List.max?_eq_none_iff.mp h]
    rfl
  | some top =>
    obtain ⟨htop, hmax⟩ := List.max?_eq_some_iff.mp h
    have hlt := hl top htop
    have hle : Split.clusterCount labels ≤ top + 1 :=
      Split.clusterCount_le fun l hm => Nat.lt_succ_of_le (hmax l hm)
    have hge := Split.lt_clusterCount htop
    rw [Nat.le_antisymm hle hge]
    exact increment_eq (by omega)

variable {α : Type} [Scalar α]

def qualityOf (labels : List Nat) (clusters : Nat) : Except Fault α :=
  if labels.isEmpty ∨ clusters = 0 then pure 1.0
  else do
    let counts ← tally clusters labels
    let shares ← counts.mapM fun (count : Nat) => divide (count : α) (labels.length : α)
    let mean ← divide (Scalar.sum shares) (clusters : α)
    divide mean (clusters : α)

def clusteringOf (labels : List Nat) : Except Fault (Clustering α) := do
  let clusters ← clusterCount labels
  let quality ← qualityOf labels clusters
  pure ⟨labels, clusters, quality⟩

variable [Scalar.Counting α]

theorem qualityOf_eq {labels : List Nat} (hlen : labels.length < UInt64.size) {clusters : Nat}
    (hl : ∀ l ∈ labels, l < clusters) :
    qualityOf labels clusters = pure (Split.qualityOf labels clusters : α) := by
  rw [qualityOf, Split.qualityOf]
  split
  next => rfl
  next h =>
    rw [not_or, List.isEmpty_iff] at h
    have htotal : 0 < labels.length := List.length_pos_of_ne_nil h.1
    have hclusters : 0 < clusters := Nat.pos_of_ne_zero h.2
    rw [tally_eq hl hlen, pure_bind, mapM_eq_pure fun _ _ => divide_count _ htotal, pure_bind,
      divide_count _ hclusters, pure_bind, divide_count _ hclusters, List.map_map]
    rfl

theorem clusteringOf_eq {labels : List Nat} (hlen : labels.length < UInt64.size) {bound : Nat}
    (hb : bound < UInt64.size) (hl : ∀ l ∈ labels, l < bound) :
    clusteringOf labels = pure (Clustering.ofLabels labels : Clustering α) := by
  rw [clusteringOf, clusterCount_eq hb hl, pure_bind,
    qualityOf_eq hlen fun l hm => Split.lt_clusterCount hm, pure_bind]
  rfl

end Labels

/-! ## Clusters of a matrix -/

section Matrix

variable {α : Type} [Scalar α] (κ : Type) [Scalar κ] [Exponential κ] {σ : Type}

def clusterOver (sample : Random.Sampler σ) (matrix : List (List Nat)) (k : Nat) (s : σ) :
    Except Fault (Clustering α × σ) := do
  let rows : List (List κ) ← affinity matrix
  let (partition, s) ← kmeans sample rows k Split.maxRounds s
  let clustering ← clusteringOf partition.labels
  pure (clustering, s)

theorem clusterOver_eq [Scalar.Counting α] [Scalar.Counting κ] {sample : Random.Sampler σ}
    (hs : sample.Distinct) {matrix : List (List Nat)} (hlen : matrix.length < UInt64.size)
    (k : Nat) (s : σ) :
    clusterOver (α := α) κ sample matrix k s = pure (Split.clusterOver κ sample matrix k s) := by
  have hpoints : (Split.affinity (α := κ) matrix).length < UInt64.size :=
    (Split.length_affinity κ matrix).symm ▸ hlen
  have hlabels := Split.length_kmeans_labels sample (Split.affinity (α := κ) matrix) k
    Split.maxRounds s
  have hbound : Split.clampClusters k (Split.affinity (α := κ) matrix).length < UInt64.size := by
    have hone : 1 < UInt64.size := by decide
    rw [Split.clampClusters]
    omega
  rw [clusterOver, affinity_eq, pure_bind, kmeans_eq hs hpoints, pure_bind]
  simp only [clusteringOf_eq (hlabels ▸ hpoints) hbound
    fun _ => Split.lt_of_mem_kmeans_labels hs _ k Split.maxRounds s, pure_bind]
  rfl

end Matrix

end BuildAdvisor.Checked
