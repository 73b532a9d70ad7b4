import Mathlib.Algebra.BigOperators.Ring.Finset
import Mathlib.Algebra.BigOperators.Ring.List
import BuildAdvisor.Proofs.Rational
import BuildAdvisor.Proofs.Split.Analysis

/-!
The quality of a clustering is one over the square of the number of labels counted.

* `sum_shares` — the shares of the labels make up the whole, however they are spread;
* `quality_eq` — so their mean and the quality depend on the greatest label alone;
* `clusterOver_bounds` — the labels of any matrix, their number and their quality;
* `LabelledAs` — the labels that the analysis of a header arrives at;
* `proposal_confidence` — the confidence of a proposal, through its labels.
-/

set_option autoImplicit false

namespace BuildAdvisor.Split

theorem clusterCount_eq_of_max? {labels : List Nat} {m : Nat} (h : labels.max? = some m) :
    clusterCount labels = m + 1 := by
  obtain ⟨hm, hle⟩ := List.max?_eq_some_iff.mp h
  apply Nat.le_antisymm
  · exact clusterCount_le fun l hl => Nat.lt_succ_of_le (hle l hl)
  · exact lt_clusterCount hm

theorem clusterCount_eq (labels : List Nat) :
    clusterCount labels = (labels.max?.map (· + 1)).getD 0 := by
  cases hm : labels.max? with
  | none =>
    rw [List.max?_eq_none_iff.mp hm]
    rfl
  | some m => exact clusterCount_eq_of_max? hm

theorem clusterCount_eq_zero_iff {labels : List Nat} : clusterCount labels = 0 ↔ labels = [] := by
  constructor
  · intro h
    refine List.eq_nil_iff_forall_not_mem.mpr fun l hl => ?_
    exact Nat.not_lt_zero l (h ▸ lt_clusterCount hl)
  · rintro rfl
    rfl

theorem sum_shares {labels : List Nat} (hne : labels ≠ []) :
    ((List.range (clusterCount labels)).map fun l =>
      (labels.count l : Rat) / (labels.length : Rat)).sum = 1 := by
  have hcount := sum_count (List.range (clusterCount labels)) labels List.nodup_range
    fun l hl => List.mem_range.mpr (lt_clusterCount hl)
  have hpos : (labels.length : Rat) ≠ 0 := by
    exact_mod_cast fun h => hne (List.eq_nil_of_length_eq_zero h)
  have hcast : ((List.range (clusterCount labels)).map fun l => (labels.count l : Rat)).sum =
      (labels.length : Rat) := by
    rw [← hcount, Nat.cast_list_sum, List.map_map]
    rfl
  simp only [div_eq_mul_inv]
  rw [List.sum_map_mul_right, hcast, mul_inv_cancel₀ hpos]

theorem quality_eq {labels : List Nat} (hne : labels ≠ []) :
    (Clustering.ofLabels (α := Rat) labels).quality = 1 / (clusterCount labels : Rat) ^ 2 := by
  obtain ⟨l, hl⟩ := List.exists_mem_of_ne_nil labels hne
  have hc : clusterCount labels ≠ 0 := Nat.ne_of_gt (Nat.zero_lt_of_lt (lt_clusterCount hl))
  have hcond : ¬ (labels.isEmpty ∨ clusterCount labels = 0) := by
    simp [hne, hc]
  change qualityOf (α := Rat) labels (clusterCount labels) = _
  rw [qualityOf, if_neg hcond]
  simp only [Rational.sum_eq]
  rw [sum_shares hne, div_div, sq]

section Bounds

variable {α : Type} [Scalar α] (κ : Type) [Scalar κ] [Exponential κ] {σ : Type}
  {sample : Random.Sampler σ}

/-- Labels keep their bounds whatever numbers the distances are.  The quality, over exact
rationals, depends on their number alone, so it does not tell how even the clusters are. -/
theorem clusterOver_bounds (hs : sample.Distinct) (matrix : List (List Nat)) (k : Nat) (s : σ)
    {c : Clustering α} (hc : (clusterOver κ sample matrix k s).1 = c) :
    c.labels.length = matrix.length ∧
      (∀ l ∈ c.labels, l < clampClusters k matrix.length) ∧
      c.clusters = (c.labels.max?.map (· + 1)).getD 0 ∧
      c.clusters ≤ clampClusters k matrix.length ∧
      (c.clusters = 0 ↔ matrix = []) ∧
      (matrix ≠ [] → ∀ q, (clusterOver (α := Rat) κ sample matrix k s).1.quality = q →
        q = 1 / (c.clusters : Rat) ^ 2 ∧ 0 < q ∧ q ≤ 1) := by
  subst hc
  have hlength : (clusterOver (α := α) κ sample matrix k s).1.labels.length = matrix.length :=
    (length_kmeans_labels sample (affinity (α := κ) matrix) k maxRounds s).trans
      (length_affinity κ matrix)
  have hlt : ∀ l ∈ (clusterOver (α := α) κ sample matrix k s).1.labels,
      l < clampClusters k matrix.length := fun l hl =>
    length_affinity κ matrix ▸
      lt_of_mem_kmeans_labels hs (affinity (α := κ) matrix) k maxRounds s hl
  have hempty : (clusterOver (α := α) κ sample matrix k s).1.labels = [] ↔ matrix = [] := by
    rw [← List.length_eq_zero_iff, hlength, List.length_eq_zero_iff]
  refine ⟨hlength, hlt, clusterCount_eq _, clusterCount_le hlt,
    clusterCount_eq_zero_iff.trans hempty, ?_⟩
  rintro hne q rfl
  have hq : (clusterOver (α := Rat) κ sample matrix k s).1.quality =
      1 / ((clusterOver (α := α) κ sample matrix k s).1.clusters : Rat) ^ 2 :=
    quality_eq (mt hempty.mp hne)
  have hpos : (1 : Rat) ≤ ((clusterOver (α := α) κ sample matrix k s).1.clusters : Rat) := by
    exact_mod_cast Nat.one_le_iff_ne_zero.mpr
      (mt (clusterCount_eq_zero_iff.trans hempty).mp hne)
  have hsq : (1 : Rat) ≤ ((clusterOver (α := α) κ sample matrix k s).1.clusters : Rat) ^ 2 :=
    one_le_pow₀ hpos
  refine ⟨hq, ?_, ?_⟩
  · rw [hq]
    exact one_div_pos.mpr (zero_lt_one.trans_le hsq)
  · rw [hq]
    exact (div_le_one (zero_lt_one.trans_le hsq)).mpr hsq

section Example

open scoped Rational

def ragged : List (List Nat) := [[2, 2], [2], [0, 0, 1], [0]]

def raggedClustering : Clustering Rat :=
  (clusterOver Rat Random.Generator.sample ragged 3 (.ofList [])).1

theorem ragged_bounds :
    raggedClustering.labels = [2, 2, 1, 0] ∧ raggedClustering.clusters = 3 ∧
      raggedClustering.quality = 1 / 9 := by
  have hlabels : raggedClustering.labels = [2, 2, 1, 0] := by decide +kernel
  obtain ⟨-, -, hcount, -, -, hquality⟩ :=
    clusterOver_bounds Rat Random.Generator.sample_distinct ragged 3 (.ofList [])
      (c := raggedClustering) rfl
  have hthree : raggedClustering.clusters = 3 := by
    rw [hcount, hlabels]
    rfl
  obtain ⟨hq, -, -⟩ := hquality (List.cons_ne_nil _ _) raggedClustering.quality rfl
  refine ⟨hlabels, hthree, ?_⟩
  rw [hq, hthree]
  norm_num

end Example

end Bounds

section Confidence

variable {κ : Type} [Scalar κ] [Exponential κ] {σ : Type}

/-- The labels of a header's symbols, in the order of the symbols. -/
def LabelledAs {α : Type} [Scalar α] (κ : Type) [Scalar κ] [Exponential κ]
    (sample : Random.Sampler σ) (inspector : Symbols.Inspector) (config : Config α)
    (header : String) (dependents : List String) (minimum : Nat) (s : σ)
    (labels : List Nat) : Prop :=
  ∃ symbols cache, inspector.declared header = .ok symbols ∧
    collectUsage inspector header symbols (distinct dependents) = .ok cache ∧
    (clusterOver (α := α) κ sample cache.coUsage.matrix
      (targetClusters config.maxClusters symbols.size minimum) s).1.labels = labels

/-- The groups of a proposal are at least two, and no more than one for each number up to the
greatest label. -/
theorem proposal_confidence [Numeral Rat] {sample : Random.Sampler σ}
    {inspector : Symbols.Inspector} {config : Config Rat} {header : String}
    {dependents : List String} {minimum : Nat} {s : σ} {p : Proposal Rat}
    (h : (proposeOver κ sample inspector config header dependents minimum s).1 = .ok p) :
    ∃ labels m, LabelledAs κ sample inspector config header dependents minimum s labels ∧
      labels.max? = some m ∧ p.confidence = 1 / ((m + 1 : Nat) : Rat) ^ 2 ∧
      p.parts.length ≤ m + 1 ∧ 2 ≤ m + 1 := by
  obtain ⟨symbols, cache, label, a⟩ := exists_analysed κ h
  have hle := @length_groups_le symbols.toList label
  have h2 := a.two_groups
  cases hm : (symbols.toList.map label).max? with
  | none =>
    have hnil : clusterCount (symbols.toList.map label) = 0 := by
      rw [List.max?_eq_none_iff.mp hm]
      rfl
    omega
  | some m =>
    have hc := clusterCount_eq_of_max? hm
    have hne : symbols.toList.map label ≠ [] := List.ne_nil_of_mem (List.max?_mem hm)
    refine ⟨symbols.toList.map label, m, ⟨symbols, cache, a.declared, a.collected, a.labels⟩, hm,
      ?_, ?_, ?_⟩
    · rw [a.confidence_eq, quality_eq hne, hc]
    · rw [a.length_parts]
      omega
    · omega

end Confidence

end BuildAdvisor.Split
