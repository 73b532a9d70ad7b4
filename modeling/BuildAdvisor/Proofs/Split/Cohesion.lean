import BuildAdvisor.Proofs.Split.Partition

/-!
Symbols that the same files use stay together.

* `usersOf` — the dependents that use a symbol;
* `Analysed.label_eq` — symbols with the same users have the same label, however the clustering
  started and whatever its arithmetic did;
* `proposal_keeps_usage_together` — so no proposal puts them into different parts, and there are
  no more parts than different sets of users.
-/

set_option autoImplicit false

namespace BuildAdvisor.Split

section Users

variable (inspector : Symbols.Inspector) (header : String) (symbols : Names)

/-- A dependent that cannot be inspected uses nothing. -/
def uses (dependent x : String) : Bool :=
  match inspector.usedAmong dependent header symbols with
  | .ok used => used.contains x
  | .error _ => false

def usersOf (dependents : List String) (x : String) : Finset String :=
  (dependents.filter fun d => uses inspector header symbols d x).toFinset

variable {inspector header symbols}

theorem mem_usersOf {dependents : List String} {d x : String} :
    d ∈ usersOf inspector header symbols dependents x ↔
      d ∈ dependents ∧ uses inspector header symbols d x = true := by
  rw [usersOf, List.mem_toFinset, List.mem_filter]

theorem uses_eq_of_usersOf {dependents : List String} {d x y : String} (hd : d ∈ dependents)
    (h : usersOf inspector header symbols dependents x =
      usersOf inspector header symbols dependents y) :
    uses inspector header symbols d x = uses inspector header symbols d y := by
  have hiff : d ∈ usersOf inspector header symbols dependents x ↔
      d ∈ usersOf inspector header symbols dependents y := by rw [h]
  rw [mem_usersOf, mem_usersOf] at hiff
  rw [Bool.eq_iff_iff]
  exact ⟨fun hx => (hiff.mp ⟨hd, hx⟩).2, fun hy => (hiff.mpr ⟨hd, hy⟩).2⟩

end Users

section Cohesion

variable {α : Type} [Scalar α] {κ : Type} [Scalar κ] [Exponential κ] {σ : Type}
  {sample : Random.Sampler σ} {inspector : Symbols.Inspector} {config : Config α}
  {header : String} {dependents : List String} {minimum : Nat} {s : σ} {p : Proposal α}
  {symbols : Names} {cache : UsageCache} {label : String → Nat}

/-- Equal users make equal rows of the co-usage matrix, the diagonal included. -/
theorem Analysed.label_eq
    (a : Analysed κ sample inspector config header dependents minimum s p symbols cache label)
    {x y : String} (h : usersOf inspector header symbols dependents x =
      usersOf inspector header symbols dependents y) : label x = label y := by
  apply a.label_congr
  apply cache.row_congr
  intro used hused
  have hc := collectUsage_eq_ok a.collected
  obtain ⟨d, hd, hcached⟩ := hc.mem_values_iff.mp hused
  obtain ⟨used', hasked, hrecorded⟩ := hc.usage d hd
  obtain rfl : used = used' := Option.some.inj (hcached.symm.trans hrecorded)
  have hu := uses_eq_of_usersOf (mem_distinct.mp hd) h
  simpa only [uses, hasked] using hu

theorem Analysed.exists_part
    (a : Analysed κ sample inspector config header dependents minimum s p symbols cache label)
    {x : String} (hx : x ∈ symbols) : ∃ part ∈ p.parts, x ∈ part.symbols := by
  have hm := Std.ExtTreeSet.mem_toList.mpr hx
  have hg := @labelled_mem_groups symbols.toList label x hm
  rw [← numbered_symbols header (groups _ _), ← a.parts_eq] at hg
  obtain ⟨part, hp, he⟩ := List.mem_map.mp hg
  exact ⟨part, hp, he ▸ mem_labelled_iff.mpr ⟨hm, rfl⟩⟩

theorem Analysed.mem_part_iff
    (a : Analysed κ sample inspector config header dependents minimum s p symbols cache label)
    {x y : String} (hx : x ∈ symbols) (hy : y ∈ symbols)
    (h : usersOf inspector header symbols dependents x =
      usersOf inspector header symbols dependents y)
    {part : Part} (hp : part ∈ p.parts) : x ∈ part.symbols ↔ y ∈ part.symbols := by
  rw [a.parts_eq] at hp
  obtain ⟨z, -, he⟩ := mem_groups_iff.mp (mem_numbered_symbols hp)
  rw [he, mem_labelled_iff, mem_labelled_iff, a.label_eq h]
  simp [hx, hy]

theorem Analysed.length_parts_le
    (a : Analysed κ sample inspector config header dependents minimum s p symbols cache label) :
    p.parts.length ≤
      (symbols.toList.map (usersOf inspector header symbols dependents)).toFinset.card := by
  rw [a.length_parts]
  exact length_groups_le_card _ fun x _ y _ he => a.label_eq he

theorem proposal_keeps_usage_together [Numeral α]
    (h : (proposeOver κ sample inspector config header dependents minimum s).1 = .ok p) :
    ∃ symbols, inspector.declared header = .ok symbols ∧
      (∀ x ∈ symbols, ∀ y ∈ symbols,
        usersOf inspector header symbols dependents x =
          usersOf inspector header symbols dependents y →
        (∃ part ∈ p.parts, x ∈ part.symbols ∧ y ∈ part.symbols) ∧
          ∀ part ∈ p.parts, x ∈ part.symbols ↔ y ∈ part.symbols) ∧
      (∃ part ∈ p.parts, ∀ x ∈ symbols,
        usersOf inspector header symbols dependents x = ∅ → x ∈ part.symbols) ∧
      p.parts.length ≤
        (symbols.toList.map (usersOf inspector header symbols dependents)).toFinset.card := by
  obtain ⟨symbols, cache, label, a⟩ := exists_analysed κ h
  refine ⟨symbols, a.declared, ?_, ?_, a.length_parts_le⟩
  · intro x hx y hy hxy
    obtain ⟨part, hp, hm⟩ := a.exists_part hx
    exact ⟨⟨part, hp, hm, (a.mem_part_iff hx hy hxy hp).mp hm⟩,
      fun part hp => a.mem_part_iff hx hy hxy hp⟩
  · -- The part of one unused symbol holds them all; without one, any part will do.
    by_cases hun : ∃ x ∈ symbols, usersOf inspector header symbols dependents x = ∅
    · obtain ⟨x, hx, hxn⟩ := hun
      obtain ⟨part, hp, hm⟩ := a.exists_part hx
      exact ⟨part, hp, fun y hy hyn => (a.mem_part_iff hx hy (hxn.trans hyn.symm) hp).mp hm⟩
    · have hlen : 0 < p.parts.length := by
        have h2 := a.two_groups
        rw [← a.length_parts] at h2
        omega
      exact ⟨p.parts[0], List.getElem_mem hlen, fun y hy hyn => absurd ⟨y, hy, hyn⟩ hun⟩

end Cohesion

section Example

open scoped Rational

def mathSymbols : Names :=
  Symbols.StaticTable.extend ∅ ["Vec2", "Vec3", "Mat3", "Mat4"]

theorem mathTable_declared : mathTable.inspector.declared "math.h" = .ok mathSymbols := by
  simp [mathTable, Symbols.StaticTable.inspector, Symbols.StaticTable.declared,
    Symbols.StaticTable.declare, Symbols.StaticTable.reference, Symbols.StaticTable.extendEntry,
    Symbols.StaticTable.empty, mathSymbols]

theorem mathSplit_keeps_halves :
    ∃ p, mathSplit = .ok p ∧
      (∃ part ∈ p.parts, "Mat3" ∈ part.symbols ∧ "Mat4" ∈ part.symbols) ∧
      p.parts.length ≤ 2 := by
  obtain ⟨p, hp⟩ := mathSplit_eq_ok
  obtain ⟨symbols, hd, htogether, -, hlen⟩ := proposal_keeps_usage_together hp
  obtain rfl : mathSymbols = symbols := Except.ok.inj (mathTable_declared.symm.trans hd)
  have hsame : usersOf mathTable.inspector "math.h" mathSymbols ["physics.cpp", "render.cpp"]
      "Mat3" = usersOf mathTable.inspector "math.h" mathSymbols ["physics.cpp", "render.cpp"]
      "Mat4" := by decide +kernel
  have htwo : (mathSymbols.toList.map (usersOf mathTable.inspector "math.h" mathSymbols
      ["physics.cpp", "render.cpp"])).toFinset.card = 2 := by decide +kernel
  exact ⟨p, hp, (htogether "Mat3" (by decide +kernel) "Mat4" (by decide +kernel) hsame).1,
    htwo ▸ hlen⟩

end Example

end BuildAdvisor.Split
