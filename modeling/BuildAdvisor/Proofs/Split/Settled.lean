import BuildAdvisor.Proofs.Split.Labels
import BuildAdvisor.Proofs.Split.Nearest
import BuildAdvisor.Scalar.Double

/-!
Where k-means comes to rest.

* `columnMean`, `mean_eq_columnMean` — the mean of some rows, column by column;
* `update_update` — moving centroids twice for the same labels is moving them once;
* `AtRest`, `refine_atRest` — a refinement that ends because no label changed ends in a fixed point
  of its two halves, centroids without points included;
* `kmeans_atRest` — what that says of labels and centroids.
-/

set_option autoImplicit false

namespace BuildAdvisor.Split

variable {α : Type} [Scalar α]

/-! ## Means -/

/-- Rows that end before a column do not enter its sum, but they are counted. -/
def columnMean (width : Nat) (rows : List (List α)) : List α :=
  (List.range width).map fun j =>
    (rows.filterMap (·[j]?)).foldl (· + ·) 0.0 / (rows.length : α)

theorem getElem?_addRow (sum row : List α) (j : Nat) :
    (addRow sum row)[j]? = sum[j]?.map fun a => row[j]?.elim a (a + ·) := by
  induction sum, row using addRow.induct generalizing j with
  | case1 a sum x row ih =>
    cases j with
    | zero => rfl
    | succ j => simpa [addRow] using ih j
  | case2 sum row h =>
    cases sum with
    | nil => simp [addRow]
    | cons a sum =>
      cases row with
      | nil => simp [addRow]
      | cons x row => exact absurd rfl (h a sum x row rfl)

theorem getElem?_foldl_addRow (sum : List α) (rows : List (List α)) (j : Nat) :
    (rows.foldl addRow sum)[j]? =
      sum[j]?.map fun a => (rows.filterMap (·[j]?)).foldl (· + ·) a := by
  induction rows generalizing sum with
  | nil => simp
  | cons row rest ih =>
    rw [List.foldl_cons, ih, getElem?_addRow, Option.map_map]
    cases h : row[j]? with
    | none => simp [h, Function.comp_def]
    | some x => simp [h, Function.comp_def]

theorem mean_eq_columnMean (width : Nat) (rows : List (List α)) :
    mean width rows = columnMean width rows := by
  refine List.ext_getElem? fun j => ?_
  rw [mean, columnMean, List.getElem?_map, getElem?_foldl_addRow, List.getElem?_map,
    List.getElem?_replicate]
  by_cases hj : j < width
  · rw [if_pos hj, List.getElem?_range hj]
    rfl
  · rw [if_neg hj, List.getElem?_eq_none (by simpa using hj)]
    rfl

/-! ## Rounds -/

theorem getElem?_update (width : Nat) {points : List (List α)} {labels : List Nat}
    {centroids : List (List α)} {label : Nat} (hl : label < centroids.length)
    (hm : members points labels label ≠ []) :
    (update width points labels centroids)[label]? =
      some (columnMean width (members points labels label)) := by
  have hm' : (members points labels label).isEmpty = false := List.isEmpty_eq_false_iff.mpr hm
  rw [update, List.getElem?_mapIdx, List.getElem?_eq_getElem hl, Option.map_some, moveCentroid,
    hm', if_neg Bool.false_ne_true, mean_eq_columnMean]

/-- A centroid with points does not depend on where it was, and one without stays. -/
theorem update_update (width : Nat) (points : List (List α)) (labels : List Nat)
    (centroids : List (List α)) :
    update width points labels (update width points labels centroids) =
      update width points labels centroids := by
  rw [update, update, List.mapIdx_mapIdx]
  refine congrArg (List.mapIdx · centroids) (funext fun label => funext fun centroid => ?_)
  simp only [moveCentroid]
  split <;> rfl

/-- Neither half of a round changes anything. -/
structure AtRest (width : Nat) (points : List (List α)) (r : Partition α) : Prop where
  centroids : update width points r.labels r.centroids = r.centroids
  labels : assign r.centroids points = r.labels

/-- After the first round the centroids of a round are those that its labels gave. -/
theorem refine_atRest {width : Nat} {points : List (List α)} {isFirst : Bool} {rounds : Nat}
    {centroids : List (List α)} {labels : List Nat}
    (hfirst : isFirst = false → update width points labels centroids = centroids)
    (h : (refine width points isFirst rounds centroids labels).settled = true) :
    AtRest width points (refine width points isFirst rounds centroids labels) := by
  induction rounds generalizing isFirst centroids labels with
  | zero => cases h
  | succ rounds ih =>
    simp only [refine] at h ⊢
    split at h
    next hend =>
      rw [if_pos hend]
      rw [Bool.and_eq_true, Bool.not_eq_true', beq_iff_eq] at hend
      exact ⟨hend.2 ▸ hfirst hend.1, rfl⟩
    next hend =>
      rw [if_neg hend]
      exact ih (fun _ => update_update width points _ centroids) h

theorem length_centroids_refine (width : Nat) (points : List (List α)) (isFirst : Bool)
    (rounds : Nat) (centroids : List (List α)) (labels : List Nat) :
    (refine width points isFirst rounds centroids labels).centroids.length =
      centroids.length := by
  induction rounds generalizing isFirst centroids labels with
  | zero => rfl
  | succ rounds ih =>
    simp only [refine]
    split
    · rfl
    · rw [ih, length_update]

/-! ## The end of a run -/

omit [Scalar α] in
theorem members_ne_nil {points : List (List α)} {labels : List Nat}
    (hlen : labels.length ≤ points.length) {label : Nat} (hl : label ∈ labels) :
    members points labels label ≠ [] := by
  rw [← List.map_snd_zip hlen] at hl
  obtain ⟨pair, hp, rfl⟩ := List.mem_map.mp hl
  refine List.ne_nil_of_mem (List.mem_map_of_mem (List.mem_filter.mpr ⟨hp, ?_⟩))
  exact beq_self_eq_true pair.2

theorem AtRest.getElem?_centroids {width : Nat} {points : List (List α)} {r : Partition α}
    (h : AtRest width points r) (hne : r.centroids ≠ []) {label : Nat} (hl : label ∈ r.labels) :
    r.centroids[label]? = some (columnMean width (members points r.labels label)) := by
  have hlen : r.labels.length ≤ points.length := by
    rw [← h.labels, assign, List.length_map]
  have hlt : label < r.centroids.length := lt_of_mem_assign hne (h.labels.symm ▸ hl)
  have hu := getElem?_update width hlt (members_ne_nil hlen hl)
  rwa [h.centroids] at hu

theorem AtRest.labels_isLeast [Scalar.Ordered α] {width : Nat} {points : List (List α)}
    {r : Partition α} (h : AtRest width points r) (hne : r.centroids ≠ []) :
    List.Forall₂ (fun point label => IsLeast {c | IsNearest r.centroids point c} label) points
      r.labels := by
  rw [← h.labels, assign, List.forall₂_map_right_iff, List.forall₂_same]
  exact fun point _ => nearest_isLeast hne point

theorem kmeans_atRest {σ : Type} {sample : Random.Sampler σ} (hs : sample.Distinct)
    {points : List (List α)} {k rounds : Nat} {s : σ}
    (h : (kmeans sample points k rounds s).1.settled = true) :
    (kmeans sample points k rounds s).1.centroids ≠ [] ∧
      AtRest (points.headD []).length points (kmeans sample points k rounds s).1 := by
  rw [kmeans] at h ⊢
  split at h
  next => cases h
  next hne =>
    rw [if_neg hne]
    refine ⟨?_, refine_atRest (fun h => Bool.noConfusion h) h⟩
    have hpos : 0 < points.length := by
      rw [Bool.not_eq_true, List.isEmpty_eq_false_iff] at hne
      exact List.length_pos_of_ne_nil hne
    refine List.ne_nil_of_length_pos ?_
    simp only [refineFrom, length_centroids_refine, List.length_map,
      hs.length _ _ s (clampClusters_le k hpos)]
    exact one_le_clampClusters k points.length

/-- Labels and centroids at the end of a run that no cap cut short. -/
theorem kmeans_settled {σ : Type} {sample : Random.Sampler σ} (hs : sample.Distinct)
    {points : List (List Float)} {k rounds : Nat} {s : σ} {r : Partition Float}
    (hr : (kmeans sample points k rounds s).1 = r) (h : r.settled = true) :
    List.Forall₂ (fun point label => IsLeast {c | IsNearest r.centroids point c} label) points
        r.labels ∧
      (∀ label ∈ r.labels, r.centroids[label]? =
        some (columnMean (points.headD []).length (members points r.labels label))) ∧
      update (points.headD []).length points r.labels r.centroids = r.centroids ∧
      assign (update (points.headD []).length points r.labels r.centroids) points =
        r.labels := by
  subst hr
  obtain ⟨hne, hrest⟩ := kmeans_atRest hs h
  refine ⟨hrest.labels_isLeast hne, fun label hl => hrest.getElem?_centroids hne hl,
    hrest.centroids, ?_⟩
  rw [hrest.centroids, hrest.labels]

section Example

def twoPairs : List (List Float) := [[0.0], [0.1], [5.0], [5.2]]

def twoPairsPartition : Partition Float :=
  (kmeans Random.Generator.sample twoPairs 2 100 (.ofList [])).1

theorem twoPairs_settled :
    twoPairsPartition.settled = true ∧ twoPairsPartition.labels = [1, 1, 0, 0] ∧
      twoPairsPartition.centroids[1]? = some (columnMean 1 [[0.0], [0.1]]) := by
  have hsettled : twoPairsPartition.settled = true := by decide +kernel
  have hlabels : twoPairsPartition.labels = [1, 1, 0, 0] := by decide +kernel
  obtain ⟨-, hmeans, -⟩ :=
    kmeans_settled Random.Generator.sample_distinct (r := twoPairsPartition) rfl hsettled
  have hmean := hmeans 1 (by rw [hlabels]; exact List.mem_cons_self)
  rw [hlabels] at hmean
  exact ⟨hsettled, hlabels, hmean⟩

end Example

end BuildAdvisor.Split
