import BuildAdvisor.Proofs.HeaderPath
import BuildAdvisor.Proofs.Random.Sample
import BuildAdvisor.Proofs.Split.Analysis

/-!
A proposal parts the symbols of its header.

* `numbered_symbols`, `numbered_names` — the parts are the groups in order, each with its own
  name;
* `Analysed.clusterCount_le_target`, `Analysed.clusterCount_le` — no more labels are counted than
  clusters were asked for, or are allowed;
* `proposal_partitions` — every declared symbol stands in exactly one part, once.
-/

set_option autoImplicit false

namespace BuildAdvisor.Split

/-! ## Numbered groups -/

theorem numbered_symbols (header : String) (groups : List (List String)) :
    (numbered header groups).map Part.symbols = groups := by
  apply List.ext_getElem (by simp [numbered])
  intro i _ _
  simp [numbered]

theorem numbered_names (header : String) (groups : List (List String)) :
    (numbered header groups).map Part.name =
      (List.range groups.length).map fun i => HeaderPath.partName header (i + 1) := by
  apply List.ext_getElem (by simp [numbered])
  intro i _ _
  simp [numbered]

theorem numbered_names_nodup (header : String) (groups : List (List String)) :
    ((numbered header groups).map Part.name).Nodup := by
  rw [numbered_names]
  refine List.nodup_range.map ?_
  intro i j h
  exact Nat.succ.inj (HeaderPath.partName_number_injective h)

theorem header_not_mem_numbered_names (header : String) (groups : List (List String)) :
    header ∉ (numbered header groups).map Part.name := by
  rw [numbered_names]
  intro h
  obtain ⟨i, -, he⟩ := List.mem_map.mp h
  exact HeaderPath.partName_ne header (i + 1) he

theorem mem_numbered_symbols {header : String} {groups : List (List String)} {part : Part}
    (h : part ∈ numbered header groups) : part.symbols ∈ groups := by
  rw [← numbered_symbols header groups]
  exact List.mem_map.mpr ⟨part, h, rfl⟩

/-- Parts of disjoint groups have nothing in common, so a symbol names its part. -/
theorem existsUnique_part {header : String} {groups : List (List String)} {x : String}
    (hd : groups.Pairwise List.Disjoint) (hx : ∃ g ∈ groups, x ∈ g) :
    ∃! part, part ∈ numbered header groups ∧ x ∈ part.symbols := by
  obtain ⟨g, hg, hxg⟩ := hx
  rw [← numbered_symbols header groups] at hg hd
  obtain ⟨part, hp, rfl⟩ := List.mem_map.mp hg
  refine ⟨part, ⟨hp, hxg⟩, ?_⟩
  rintro other ⟨ho, hxo⟩
  have hpw := List.pairwise_map.mp hd
  by_contra hne
  have hsym : Std.Symm fun a b : Part => List.Disjoint a.symbols b.symbols :=
    ⟨fun _ _ h => h.symm⟩
  exact List.Pairwise.forall hpw ho hp hne hxo hxg

/-! ## The partition -/

section Partition

variable {α : Type} [Scalar α] {κ : Type} [Scalar κ] [Exponential κ] {σ : Type}
  {sample : Random.Sampler σ} {inspector : Symbols.Inspector} {config : Config α}
  {header : String} {dependents : List String} {minimum : Nat} {s : σ} {p : Proposal α}
  {symbols : Names} {cache : UsageCache} {label : String → Nat}

theorem clampClusters_target_le (maxClusters symbols minimum : Nat) :
    clampClusters (targetClusters maxClusters symbols minimum) symbols ≤ max 2 maxClusters := by
  rw [clampClusters, targetClusters]
  omega

theorem Analysed.symbols_pos
    (h : Analysed κ sample inspector config header dependents minimum s p symbols cache label) :
    0 < symbols.size := by
  have hg := h.two_groups
  obtain ⟨g, hg⟩ := List.exists_mem_of_length_pos (Nat.lt_of_lt_of_le Nat.two_pos hg)
  obtain ⟨x, hx, -⟩ := mem_groups_iff.mp hg
  rw [← Std.ExtTreeSet.length_toList]
  exact List.length_pos_of_mem hx

/-- Labels are numbers of centroids, of which there are as many as clusters were asked for. -/
theorem Analysed.clusterCount_le_target (hs : sample.Distinct)
    (h : Analysed κ sample inspector config header dependents minimum s p symbols cache label) :
    clusterCount (symbols.toList.map label) ≤
      clampClusters (targetClusters config.maxClusters symbols.size minimum) symbols.size := by
  have hpos := h.symbols_pos
  have hlen := hs.length symbols.size
    (clampClusters (targetClusters config.maxClusters symbols.size minimum) symbols.size) s (by
      rw [clampClusters]
      omega)
  apply Split.clusterCount_le
  intro l hl
  obtain ⟨x, -, rfl⟩ := List.mem_map.mp hl
  have hx := h.label_lt x
  rw [hlen] at hx
  have hone := one_le_clampClusters
    (targetClusters config.maxClusters symbols.size minimum) symbols.size
  omega

theorem Analysed.clusterCount_le (hs : sample.Distinct)
    (h : Analysed κ sample inspector config header dependents minimum s p symbols cache label) :
    clusterCount (symbols.toList.map label) ≤ max 2 config.maxClusters :=
  Nat.le_trans (h.clusterCount_le_target hs) (clampClusters_target_le _ _ _)

/-- Whatever numbers the clustering computes with, and whichever rows it starts from, a proposed
split divides the declared symbols among its parts. -/
theorem proposal_partitions [Numeral α] (hs : sample.Distinct)
    (h : (proposeOver κ sample inspector config header dependents minimum s).1 = .ok p) :
    ∃ symbols, inspector.declared header = .ok symbols ∧
      (p.parts.flatMap Part.symbols).Perm symbols.toList ∧
      (∀ x ∈ symbols, ∃! part, part ∈ p.parts ∧ x ∈ part.symbols) ∧
      (∀ part ∈ p.parts, ∀ x ∈ part.symbols, x ∈ symbols) ∧
      (∀ part ∈ p.parts, part.symbols.Pairwise (· < ·) ∧ 2 ≤ part.symbols.length) ∧
      2 ≤ p.parts.length ∧ p.parts.length ≤ max 2 config.maxClusters ∧
      (p.parts.map Part.name).Nodup ∧ header ∉ p.parts.map Part.name := by
  obtain ⟨symbols, cache, label, a⟩ := exists_analysed κ h
  refine ⟨symbols, a.declared, ?_, ?_, ?_, ?_, ?_, ?_, ?_, ?_⟩
  · rw [List.flatMap_def, a.parts_eq, numbered_symbols]
    exact flatten_groups_perm symbols.toList_nodup
  · intro x hx
    rw [a.parts_eq]
    have hm := Std.ExtTreeSet.mem_toList.mpr hx
    exact existsUnique_part groups_disjoint
      ⟨_, labelled_mem_groups hm, mem_labelled_iff.mpr ⟨hm, rfl⟩⟩
  · intro part hp x hx
    rw [a.parts_eq] at hp
    exact Std.ExtTreeSet.mem_toList.mp ((group_sublist (mem_numbered_symbols hp)).mem hx)
  · intro part hp
    rw [a.parts_eq] at hp
    have hg := mem_numbered_symbols hp
    exact ⟨symbols.toList_sorted.sublist (group_sublist hg), a.two_symbols _ hg⟩
  · rw [a.length_parts]
    exact a.two_groups
  · rw [a.length_parts]
    exact Nat.le_trans length_groups_le (a.clusterCount_le hs)
  · rw [a.parts_eq]
    exact numbered_names_nodup header _
  · rw [a.parts_eq]
    exact header_not_mem_numbered_names header _

end Partition

section Example

open scoped Rational

theorem mathSplit_partitions :
    ∃ p symbols, mathSplit = .ok p ∧ mathTable.inspector.declared "math.h" = .ok symbols ∧
      (p.parts.flatMap Part.symbols).Perm symbols.toList ∧
      (∀ x ∈ symbols, ∃! part, part ∈ p.parts ∧ x ∈ part.symbols) ∧
      2 ≤ p.parts.length ∧ p.parts.length ≤ 6 ∧ "math.h" ∉ p.parts.map Part.name := by
  obtain ⟨p, hp⟩ := mathSplit_eq_ok
  obtain ⟨symbols, hd, hperm, hu, -, -, h2, h6, -, hn⟩ :=
    proposal_partitions Random.Generator.sample_distinct hp
  exact ⟨p, symbols, hp, hd, hperm, hu, h2, h6, hn⟩

end Example

end BuildAdvisor.Split
