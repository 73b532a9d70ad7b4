import BuildAdvisor.Proofs.Advisor.Run
import BuildAdvisor.Proofs.Rational

/-!
Sources that fail, and sources registered in another order.

* `found` — what the sources of one kind give that do not fail;
* `collectDrafts_eq` — a run collects this, one enabled kind after another;
* `SameReports` — two advisors report the same, identifiers apart; they do where each kind finds
  the same (`sameReports_of_found`), because ranking reads no identifier;
* `found_insert_failing`, `found_swap` — two changes to the registered sources that leave what
  each kind finds as it is;
* `generateFor_findings` — a run of one kind in which no source fails;
* `run_isolates_sources` — all of it for every list of sources.
-/

set_option autoImplicit false

namespace BuildAdvisor.Advisor

variable {α : Type}

def findings (suggestions : List (Suggestion α)) : List (Finding α) :=
  suggestions.map Suggestion.toFinding

/-! ## What a kind finds -/

/-- The outputs of those sources of a kind that do not fail, in the order of registration. -/
def found (sources : List (Source α)) (t : Trace α) (o : Options α) (kind : SourceKind) :
    List (Draft α) :=
  ((sources.filter fun s => s.kind == kind).filterMap fun s => (s.produce t o).toOption).flatten

section Found

variable (t : Trace α) (o : Options α) (kind : SourceKind)

theorem flatMap_findingsOf (sources : List (Source α)) :
    sources.flatMap (findingsOf t o) =
      (sources.filterMap fun s => (s.produce t o).toOption).flatten := by
  induction sources with
  | nil => rfl
  | cons s rest ih =>
    rw [List.flatMap_cons, ih]
    cases h : s.produce t o with
    | error e => simp [findingsOf, Except.toOption, h]
    | ok drafts => simp [findingsOf, Except.toOption, h]

theorem sourcesOf_map_snd (a : Advisor α) :
    (a.sourcesOf kind).map Prod.snd = a.sources.filter fun s => s.kind == kind := by
  have h := List.filter_map (p := fun s : Source α => s.kind == kind) (f := Prod.fst)
    (l := a.sources.zipIdx)
  rw [List.zipIdx_map_fst] at h
  rw [h, sourcesOf, List.map_map]
  rfl

theorem flatMap_sourcesOf (a : Advisor α) :
    (a.sourcesOf kind).flatMap (fun p => findingsOf t o p.2) = found a.sources t o kind := by
  calc (a.sourcesOf kind).flatMap (fun p => findingsOf t o p.2)
      = ((a.sourcesOf kind).map Prod.snd).flatMap (findingsOf t o) := (List.flatMap_map _ _ _).symm
    _ = found a.sources t o kind := by
      rw [sourcesOf_map_snd, flatMap_findingsOf]
      rfl

theorem collectDrafts_eq (a : Advisor α) : a.collectDrafts t o =
    (SourceKind.all.filter (SourceKind.isEnabled o)).flatMap (found a.sources t o) := by
  unfold collectDrafts enabledSources
  rw [List.flatMap_assoc]
  exact List.flatMap_congr fun kind _ => flatMap_sourcesOf t o kind a

theorem found_append (xs ys : List (Source α)) :
    found (xs ++ ys) t o kind = found xs t o kind ++ found ys t o kind := by
  simp [found]

theorem found_insert_failing {s : Source α} {e : AnalysisError} (h : s.produce t o = .error e)
    (before after : List (Source α)) :
    found (before ++ s :: after) t o kind = found (before ++ after) t o kind := by
  have hs : found (s :: after) t o kind = found after t o kind := by
    unfold found
    by_cases hk : s.kind = kind
    · simp [hk, h, Except.toOption]
    · simp [hk]
  rw [found_append, found_append, hs]

/-- Of two sources of different kinds at most one is of the kind in question. -/
theorem found_swap {s s' : Source α} (h : s.kind ≠ s'.kind) (before after : List (Source α)) :
    found (before ++ s' :: s :: after) t o kind = found (before ++ s :: s' :: after) t o kind := by
  have hs : found (s' :: s :: after) t o kind = found (s :: s' :: after) t o kind := by
    unfold found
    by_cases hk : s.kind = kind
    · have hk' : s'.kind ≠ kind := fun he => h (hk.trans he.symm)
      simp [hk, hk']
    · simp [List.filter_cons, hk]
  rw [found_append, found_append, hs]

end Found

/-! ## Runs -/

theorem collect_findings (a : Advisor α) (t : Trace α) (o : Options α) (next : Nat) :
    findings (a.collect t o next).result =
      ((SourceKind.all.filter (SourceKind.isEnabled o)).flatMap (found a.sources t o)).map
        Draft.finding := by
  rw [← collectDrafts_eq]
  exact nameDrafts_findings a.identifier next (a.collectDrafts t o)

theorem runUntilFailure_findings (identifier : Nat → String) (t : Trace α) (o : Options α)
    (sources : List (Nat × Source α)) (next : Nat)
    (h : ∀ p ∈ sources, ∃ drafts, p.2.produce t o = .ok drafts) :
    ∃ suggestions, (runUntilFailure identifier t o next sources).result = .ok suggestions ∧
      findings suggestions = (sources.flatMap fun p => findingsOf t o p.2).map Draft.finding := by
  induction sources generalizing next with
  | nil => exact ⟨[], rfl, rfl⟩
  | cons p rest ih =>
    obtain ⟨drafts, hp⟩ := h p List.mem_cons_self
    obtain ⟨later, hlater, hfindings⟩ := ih (nameDrafts identifier next drafts).2
      fun q hq => h q (List.mem_cons_of_mem p hq)
    refine ⟨(nameDrafts identifier next drafts).1 ++ later, ?_, ?_⟩
    · rw [runUntilFailure, hp]
      simp only [hlater]
      rfl
    · have hfound : findingsOf t o p.2 = drafts := by rw [findingsOf, hp]
      rw [List.flatMap_cons, List.map_append, ← hfindings, hfound,
        ← nameDrafts_findings identifier next drafts]
      exact List.map_append

theorem generateFor_findings (a : Advisor α) (kind : SourceKind) (t : Trace α) (o : Options α)
    (next : Nat) (h : ∀ s ∈ a.sources, s.kind = kind → ∃ drafts, s.produce t o = .ok drafts) :
    ∃ suggestions, (a.generateFor kind t o next).result = .ok suggestions ∧
      findings suggestions = (found a.sources t o kind).map Draft.finding := by
  obtain ⟨suggestions, hresult, hfindings⟩ :=
    runUntilFailure_findings a.identifier t o (a.sourcesOf kind) next fun p hp =>
      h p.2 (mem_sourcesOf hp).1 (mem_sourcesOf hp).2
  refine ⟨suggestions, hresult, ?_⟩
  rw [hfindings, flatMap_sourcesOf]

/-! ## Advisors that report the same -/

variable [Scalar α] [Numeral α]

/-- Identifiers may differ, by the functions that name suggestions and by the numbers that are
next. -/
def SameReports (a b : Advisor α) (t : Trace α) (o : Options α) : Prop :=
  ∀ m n, findings (a.collect t o m).result = findings (b.collect t o n).result ∧
    (a.generateAll t o m).result.map findings = (b.generateAll t o n).result.map findings

theorem sameReports_of_found {a b : Advisor α} {t : Trace α} {o : Options α}
    (h : ∀ kind, found a.sources t o kind = found b.sources t o kind) : SameReports a b t o := by
  intro m n
  have hcollect : findings (a.collect t o m).result = findings (b.collect t o n).result := by
    rw [collect_findings, collect_findings, funext h]
  refine ⟨hcollect, ?_⟩
  unfold generateAll
  cases o.fault? with
  | some fault => rfl
  | none => exact congrArg Except.ok (Suggestion.select_findings_congr hcollect)

/-- The kinds run in one order, whatever the order of registration, and within a kind the sources
run as they were registered; a source that fails is left out and touches nothing else.  Naming is
left open throughout, so it does not matter which numbers a source uses up. -/
theorem run_isolates_sources (sources : List (Source α)) (identifier : Nat → String)
    (t : Trace α) (o : Options α) :
    let a : Advisor α := ⟨sources, identifier⟩
    let kinds := [.forwardDeclaration, .headerSplit, .pch, .pimpl, .templateInstantiation].filter
      (SourceKind.isEnabled o)
    (∀ next, findings (a.collect t o next).result =
      (kinds.flatMap fun kind => ((sources.filter fun s => s.kind == kind).filterMap fun s =>
        (s.produce t o).toOption).flatten).map Draft.finding) ∧
    (∀ before s after e identifier', sources = before ++ after → s.produce t o = .error e →
      SameReports ⟨before ++ s :: after, identifier'⟩ a t o) ∧
    (∀ before s s' after identifier', sources = before ++ s :: s' :: after → s.kind ≠ s'.kind →
      SameReports ⟨before ++ s' :: s :: after, identifier'⟩ a t o) ∧
    ((∀ s ∈ sources, s.kind ∈ kinds → ∃ drafts, s.produce t o = .ok drafts) →
      ∀ first : SourceKind → Nat, ∃ outputs : SourceKind → List (Suggestion α),
        (∀ kind ∈ kinds, (a.generateFor kind t o (first kind)).result = .ok (outputs kind)) ∧
        ∀ next, findings (a.collect t o next).result =
          kinds.flatMap fun kind => findings (outputs kind)) := by
  intro a kinds
  refine ⟨fun next => collect_findings a t o next, ?_, ?_, ?_⟩
  · rintro before s after e identifier' rfl hs
    exact sameReports_of_found fun kind => found_insert_failing t o kind hs before after
  · rintro before s s' after identifier' rfl hs
    exact sameReports_of_found fun kind => found_swap t o kind hs before after
  · intro hsucceed first
    have hkind : ∀ kind, ∃ suggestions, kind ∈ kinds →
        (a.generateFor kind t o (first kind)).result = .ok suggestions ∧
          findings suggestions = (found sources t o kind).map Draft.finding := by
      intro kind
      by_cases hk : kind ∈ kinds
      · obtain ⟨suggestions, h⟩ := generateFor_findings a kind t o (first kind)
          fun s hs he => hsucceed s hs (he ▸ hk)
        exact ⟨suggestions, fun _ => h⟩
      · exact ⟨[], fun h => absurd h hk⟩
    choose outputs houtputs using hkind
    refine ⟨outputs, fun kind hk => (houtputs kind hk).1, fun next => ?_⟩
    rw [collect_findings, List.map_flatMap]
    exact List.flatMap_congr fun kind hk => ((houtputs kind hk).2).symm

section Example

open scoped Rational

/-- A source that reports one change to a file of its own. -/
def fileSource (kind : SourceKind) (file : String) : Source Rat where
  kind := kind
  name := file
  produce := fun _ _ => .ok [.unnamed
    ⟨.forwardDeclaration, .low, 1, "Change " ++ file, "", file, [], [], 100, true⟩]

def brokenSource : Source Rat where
  kind := .pimpl
  name := "broken-pimpl"
  produce := fun _ _ => .error (.analysis "symbol index unavailable")

/-- Two sources registered against the order of their kinds, and a third one that fails. -/
theorem brokenSource_isolated :
    let pch := fileSource .pch "all.h"
    let forward := fileSource .forwardDeclaration "app.h"
    let a : Advisor Rat := ⟨[pch, forward], toString⟩
    (∃ e, brokenSource.produce Trace.empty Options.default = .error e) ∧
      SameReports ⟨[pch, brokenSource, forward], toString⟩ a Trace.empty Options.default ∧
      SameReports ⟨[forward, pch], toString⟩ a Trace.empty Options.default ∧
      (∃ outputs : SourceKind → List (Suggestion Rat),
        (a.generateFor .pch Trace.empty Options.default 7).result = .ok (outputs .pch)) ∧
      (findings (a.collect Trace.empty Options.default 1).result).map Finding.file =
        ["app.h", "all.h"] := by
  intro pch forward a
  obtain ⟨hcollect, hbroken, hswap, hall⟩ :=
    run_isolates_sources [pch, forward] toString Trace.empty Options.default
  have hsucceed : ∀ s ∈ [pch, forward], ∃ drafts,
      s.produce Trace.empty Options.default = .ok drafts := by
    intro s hs
    rcases List.mem_pair.mp hs with rfl | rfl <;> exact ⟨_, rfl⟩
  obtain ⟨outputs, hfor, -⟩ := hall (fun s hs _ => hsucceed s hs) fun _ => 7
  refine ⟨⟨_, rfl⟩, hbroken [pch] brokenSource [forward] _ toString rfl rfl,
    hswap [] pch forward [] toString rfl (by decide), ⟨outputs, hfor .pch (by decide)⟩, ?_⟩
  rw [hcollect]
  rfl

end Example

end BuildAdvisor.Advisor
