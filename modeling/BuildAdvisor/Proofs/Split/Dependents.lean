import BuildAdvisor.Proofs.Split.Cohesion

/-!
An analysis knows its dependents as a set.

* `exists_collectUsage` — the usage is collected if every dependent can be inspected;
* `Collected.cache_eq` — what is collected does not show the order of the dependents;
* `averageReduction_perm`, `judge_perm` — nor does an exact mean over them;
* `proposal_of_same_dependents` — so dependents may be reordered, repeated, or listed once, and
  the outcome is the same, with the random words that it took.
-/

set_option autoImplicit false

namespace BuildAdvisor.Split

/-! ## Usage -/

section Usage

variable {inspector : Symbols.Inspector} {header : String} {symbols : Names}

/-- Every one of the dependents can be asked for the symbols it uses. -/
def Inspectable (inspector : Symbols.Inspector) (header : String) (symbols : Names)
    (dependents : List String) : Prop :=
  ∀ d ∈ dependents, ∃ used, inspector.usedAmong d header symbols = .ok used

theorem exists_foldlM_record {dependents : List String}
    (h : Inspectable inspector header symbols dependents) (start : UsageCache) :
    ∃ cache, dependents.foldlM (fun cache dependent =>
      (inspector.usedAmong dependent header symbols).map fun used => cache.record dependent used)
      start = .ok cache := by
  induction dependents generalizing start with
  | nil => exact ⟨start, rfl⟩
  | cons d rest ih =>
    obtain ⟨used, hused⟩ := h d List.mem_cons_self
    obtain ⟨cache, hcache⟩ := ih (fun e he => h e (List.mem_cons_of_mem d he))
      (start.record d used)
    refine ⟨cache, ?_⟩
    rw [List.foldlM_cons, hused]
    exact hcache

theorem exists_collectUsage {dependents : List String}
    (h : Inspectable inspector header symbols dependents) :
    ∃ cache, collectUsage inspector header symbols dependents = .ok cache :=
  exists_foldlM_record h (UsageCache.empty header symbols)

/-- A dependent of both lists has the answer of the inspector in both caches; a name that stands in
neither list has an entry in neither. -/
theorem Collected.cache_eq {ds es : List String} {cache cache' : UsageCache}
    (h : Collected inspector header symbols ds (UsageCache.empty header symbols) cache)
    (h' : Collected inspector header symbols es (UsageCache.empty header symbols) cache')
    (hset : ∀ d, d ∈ ds ↔ d ∈ es) : cache = cache' := by
  have husage : cache.usage = cache'.usage := by
    apply Std.ExtTreeMap.ext_getElem?
    intro d
    by_cases hd : d ∈ ds
    · obtain ⟨used, hused, hentry⟩ := h.usage d hd
      obtain ⟨used', hused', hentry'⟩ := h'.usage d ((hset d).mp hd)
      obtain rfl : used = used' := Except.ok.inj (hused.symm.trans hused')
      rw [hentry, hentry']
    · rw [h.other d hd, h'.other d (mt (hset d).mpr hd)]
  have hheader : cache.header = cache'.header := h.header_eq.trans h'.header_eq.symm
  have hsymbols : cache.symbols = cache'.symbols := h.symbols_eq.trans h'.symbols_eq.symm
  cases cache
  cases cache'
  simp only at husage hheader hsymbols
  rw [husage, hheader, hsymbols]

theorem collectUsage_congr {ds es : List String}
    (hset : ∀ d, d ∈ ds ↔ d ∈ es) (hds : Inspectable inspector header symbols ds) :
    ∃ cache, collectUsage inspector header symbols ds = .ok cache ∧
      collectUsage inspector header symbols es = .ok cache := by
  have hes : Inspectable inspector header symbols es := fun d hd => hds d ((hset d).mpr hd)
  obtain ⟨cache, hcache⟩ := exists_collectUsage hds
  obtain ⟨cache', hcache'⟩ := exists_collectUsage hes
  obtain rfl := (collectUsage_eq_ok hcache).cache_eq (collectUsage_eq_ok hcache') hset
  exact ⟨cache, hcache, hcache'⟩

end Usage

/-! ## Benefit -/

section Benefit

variable {ds es : List String}

theorem averageReduction_perm (groups : List (List String)) (cache : UsageCache)
    (h : ds.Perm es) :
    averageReduction (α := Rat) groups cache ds = averageReduction groups cache es := by
  have hempty : ds.isEmpty = es.isEmpty := by
    rw [Bool.eq_iff_iff, List.isEmpty_iff_length_eq_zero, List.isEmpty_iff_length_eq_zero,
      h.length_eq]
  simp only [averageReduction, Rational.sum_eq, hempty, h.length_eq]
  rw [(h.map _).sum_eq]

theorem judge_perm [Numeral Rat] (config : Config Rat) (cache : UsageCache)
    (symbols : List String) (clustering : Clustering Rat) (h : ds.Perm es) :
    judge config cache symbols clustering ds = judge config cache symbols clustering es := by
  simp only [judge, averageReduction_perm _ cache h]

end Benefit

/-! ## Proposals -/

section Proposals

variable {κ : Type} [Scalar κ] [Exponential κ] [Numeral Rat] {σ : Type}

/-- The second list may hold the dependents in another order, and each of them more often or less
often.  Where inspecting them succeeds, or is not come to, both lists have the same proposal or
the same error, and leave the generator in the same state. -/
theorem proposal_of_same_dependents (sample : Random.Sampler σ) (inspector : Symbols.Inspector)
    (config : Config Rat) (header : String) (minimum : Nat) (s : σ) {ds es : List String}
    (hset : ∀ d, d ∈ ds ↔ d ∈ es)
    (hinspect : ∀ symbols, inspector.declared header = .ok symbols →
      Inspectable inspector header symbols ds) :
    proposeOver κ sample inspector config header ds minimum s =
      proposeOver κ sample inspector config header es minimum s := by
  have hperm : (distinct ds).Perm (distinct es) := distinct_perm hset
  simp only [proposeOver]
  cases hdeclared : inspector.declared header with
  | error e => rfl
  | ok symbols =>
    have hdistinct : Inspectable inspector header symbols (distinct ds) :=
      fun d hd => hinspect symbols hdeclared d (mem_distinct.mp hd)
    obtain ⟨cache, hds, hes⟩ := collectUsage_congr (fun d => hperm.mem_iff) hdistinct
    simp only [hds, hes, judge_perm config cache _ _ hperm]

end Proposals

section Example

open scoped Rational

theorem mathTable_inspectable (symbols : Names) :
    Inspectable mathTable.inspector "math.h" symbols ["physics.cpp", "render.cpp"] := by
  intro d _
  have hused : ∃ used, mathTable.used d "math.h" = .ok used :=
    ⟨_, congrArg (Except.map _) mathTable_declared⟩
  obtain ⟨used, hused⟩ := hused
  exact ⟨_, congrArg (Except.map _) hused⟩

theorem mathSplit_repeated :
    (∀ d, d ∈ ["physics.cpp", "render.cpp"] ↔ d ∈ ["render.cpp", "physics.cpp", "render.cpp"]) ∧
      (∀ symbols, Inspectable mathTable.inspector "math.h" symbols
        ["physics.cpp", "render.cpp"]) ∧
      ∃ p, mathSplit = .ok p ∧
        mathSplitter "math.h" ["render.cpp", "physics.cpp", "render.cpp"] 2 = .ok p := by
  have hset : ∀ d, d ∈ ["physics.cpp", "render.cpp"] ↔
      d ∈ ["render.cpp", "physics.cpp", "render.cpp"] := by
    intro d
    simp only [List.mem_cons, List.not_mem_nil, or_false]
    tauto
  obtain ⟨p, hp⟩ := mathSplit_eq_ok
  have hsame := congrArg Prod.fst (proposal_of_same_dependents (κ := Rat) Random.Generator.sample
    mathTable.inspector mathConfig "math.h" 2 (Random.Generator.ofList []) hset
    fun symbols _ => mathTable_inspectable symbols)
  exact ⟨hset, mathTable_inspectable, p, hp, hsame.symm.trans hp⟩

end Example

end BuildAdvisor.Split
