import BuildAdvisor.Proofs.Split.Partition

/-!
How many symbols the parts of a proposal have.

* `clampClusters_target_mul_le` — as many clusters as are asked for would fit into the symbols if
  each had the least size;
* `length_flatMap_symbols` — the symbols of all parts are those that the header declares;
* `proposal_part_sizes` — each part has two symbols, and the parts have the least size on average,
  so one of them has it;
* `shapesSplit` — a proposal with a part below the least size.
-/

set_option autoImplicit false

namespace BuildAdvisor.Split

theorem clampClusters_target_mul_le {maxClusters symbols minimum : Nat}
    (h : 2 * minimum ≤ symbols) :
    clampClusters (targetClusters maxClusters symbols minimum) symbols * minimum ≤ symbols := by
  obtain rfl | hpos := Nat.eq_zero_or_pos minimum
  · exact Nat.zero_le symbols
  · have htwo : 2 ≤ symbols / minimum := (Nat.le_div_iff_mul_le hpos).mpr h
    have hmax : max minimum 1 = minimum := Nat.max_eq_left hpos
    have hle : clampClusters (targetClusters maxClusters symbols minimum) symbols ≤
        symbols / minimum := by
      rw [clampClusters, targetClusters, hmax]
      omega
    exact (Nat.mul_le_mul_right minimum hle).trans (Nat.div_mul_le_self symbols minimum)

section PartSize

variable {α : Type} [Scalar α] {κ : Type} [Scalar κ] [Exponential κ] {σ : Type}
  {sample : Random.Sampler σ} {inspector : Symbols.Inspector} {config : Config α}
  {header : String} {dependents : List String} {minimum : Nat} {s : σ} {p : Proposal α}
  {symbols : Names} {cache : UsageCache} {label : String → Nat}

theorem Analysed.length_flatMap_symbols
    (h : Analysed κ sample inspector config header dependents minimum s p symbols cache label) :
    (p.parts.flatMap Part.symbols).length = symbols.size := by
  rw [List.flatMap_def, h.parts_eq, numbered_symbols,
    (flatten_groups_perm symbols.toList_nodup).length_eq, Std.ExtTreeSet.length_toList]

/-- Below the limit of a counter, the required number of symbols is twice the least size. -/
theorem Analysed.twice_minimum_le
    (h : Analysed κ sample inspector config header dependents minimum s p symbols cache label)
    (hsize : symbols.size < counterLimit) : 2 * minimum ≤ symbols.size := by
  have henough := h.enough
  rw [requiredSymbols] at henough
  omega

theorem Analysed.length_parts_mul_le (hs : sample.Distinct)
    (h : Analysed κ sample inspector config header dependents minimum s p symbols cache label)
    (hsize : symbols.size < counterLimit) : p.parts.length * minimum ≤ symbols.size := by
  have hparts : p.parts.length ≤
      clampClusters (targetClusters config.maxClusters symbols.size minimum) symbols.size := by
    rw [h.length_parts]
    exact Nat.le_trans length_groups_le (h.clusterCount_le_target hs)
  exact (Nat.mul_le_mul_right minimum hparts).trans
    (clampClusters_target_mul_le (h.twice_minimum_le hsize))

/-- What is enforced of every part is two symbols.  The least size holds of the parts on average
only; a header always has fewer symbols than a counter can count. -/
theorem proposal_part_sizes [Numeral α] (hs : sample.Distinct)
    (h : (proposeOver κ sample inspector config header dependents minimum s).1 = .ok p) :
    (∀ part ∈ p.parts, 2 ≤ part.symbols.length) ∧
      ((p.parts.flatMap Part.symbols).length < counterLimit →
        p.parts.length * minimum ≤ (p.parts.flatMap Part.symbols).length ∧
        ∃ part ∈ p.parts, minimum ≤ part.symbols.length) := by
  obtain ⟨symbols, cache, label, a⟩ := exists_analysed κ h
  refine ⟨?_, ?_⟩
  · intro part hp
    rw [a.parts_eq] at hp
    exact a.two_symbols _ (mem_numbered_symbols hp)
  · intro hsize
    have htotal := a.length_flatMap_symbols
    have hmul : p.parts.length * minimum ≤ (p.parts.flatMap Part.symbols).length := by
      rw [htotal] at hsize ⊢
      exact a.length_parts_mul_le hs hsize
    refine ⟨hmul, ?_⟩
    have hne : p.parts ≠ [] := by
      intro hnil
      have htwo := a.two_groups
      rw [← a.length_parts, hnil] at htwo
      exact absurd htwo (by decide)
    have hsum : (p.parts.map fun _ => minimum).sum ≤
        (p.parts.map fun part => part.symbols.length).sum := by
      rw [List.map_const', List.sum_replicate, Nat.nsmul_eq_mul, ← List.length_flatMap]
      exact hmul
    exact List.exists_le_of_sum_le hne _ _ hsum

end PartSize

/-! ## A part below the least size -/

section Example

open scoped Rational

def shapesTable : Symbols.StaticTable :=
  let t := Symbols.StaticTable.empty.declare "shapes.h"
    ["Circle", "Line", "Point", "Ray", "Square", "Triangle"]
  let t := t.reference "plane.cpp" "shapes.h" ["Circle", "Line"]
  t.reference "solid.cpp" "shapes.h" ["Point", "Ray", "Square", "Triangle"]

/-- Three symbols are meant to be the least for a part. -/
def shapesSplit : Except AnalysisError (Proposal Rat) :=
  (proposeOver Rat Random.Generator.sample shapesTable.inspector mathConfig "shapes.h"
    ["plane.cpp", "solid.cpp"] 3 (Random.Generator.ofList [])).1

def shapesParts : List (List String) :=
  [["Point", "Ray", "Square", "Triangle"], ["Circle", "Line"]]

theorem shapesSplit_eq_ok : ∃ p, shapesSplit = .ok p ∧ p.parts.map Part.symbols = shapesParts := by
  have h : shapesSplit.toOption.any
      (fun p => p.parts.map Part.symbols == shapesParts) = true := by decide +kernel
  cases hp : shapesSplit with
  | ok p =>
    rw [hp] at h
    exact ⟨p, rfl, eq_of_beq h⟩
  | error e =>
    rw [hp] at h
    cases h

theorem shapesSplit_part_below :
    ∃ p, shapesSplit = .ok p ∧ ∃ part ∈ p.parts, part.symbols.length < 3 := by
  obtain ⟨p, hp, hparts⟩ := shapesSplit_eq_ok
  have hsmall : ["Circle", "Line"] ∈ p.parts.map Part.symbols := by
    rw [hparts]
    decide
  obtain ⟨part, hm, heq⟩ := List.mem_map.mp hsmall
  exact ⟨p, hp, part, hm, by rw [heq]; decide⟩

theorem shapesSplit_sizes :
    ∃ p, shapesSplit = .ok p ∧ (∀ part ∈ p.parts, 2 ≤ part.symbols.length) ∧
      p.parts.length * 3 ≤ (p.parts.flatMap Part.symbols).length ∧
      ∃ part ∈ p.parts, 3 ≤ part.symbols.length := by
  obtain ⟨p, hp, hparts⟩ := shapesSplit_eq_ok
  obtain ⟨htwo, hmean⟩ := proposal_part_sizes Random.Generator.sample_distinct hp
  have hlength : (p.parts.flatMap Part.symbols).length = 6 := by
    rw [List.flatMap_def, hparts]
    rfl
  exact ⟨p, hp, htwo, hmean (by rw [hlength]; decide)⟩

end Example

end BuildAdvisor.Split
