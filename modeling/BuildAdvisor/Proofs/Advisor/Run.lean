import BuildAdvisor.Advisor.Run
import BuildAdvisor.Proofs.Suggestion.Ranking

/-!
Where the suggestions of a run come from.

* `nameDrafts_findings` — naming leaves the findings and their order as they are;
* `mem_collect` — each collected suggestion is a finding of one of the sources;
* `generateAll_result` — a run whose options have no fault selects from the collected ones;
* `mem_generateAll` — each suggestion that it returns is a finding, and meets the thresholds.
-/

set_option autoImplicit false

namespace BuildAdvisor.Advisor

variable {α : Type}

theorem nameDrafts_findings (identifier : Nat → String) (next : Nat) (drafts : List (Draft α)) :
    (nameDrafts identifier next drafts).1.map Suggestion.toFinding =
      drafts.map Draft.finding := by
  induction drafts generalizing next with
  | nil => rfl
  | cons d rest ih =>
    rw [nameDrafts]
    split
    · rw [List.map_cons, List.map_cons, ih]
    · rw [List.map_cons, List.map_cons, ih]

theorem mem_sourcesOf {a : Advisor α} {kind : SourceKind} {i : Nat} {s : Source α}
    (h : (i, s) ∈ a.sourcesOf kind) : s ∈ a.sources ∧ s.kind = kind := by
  obtain ⟨⟨s', j⟩, hm, he⟩ := List.mem_map.mp h
  obtain ⟨hz, hk⟩ := List.mem_filter.mp hm
  obtain ⟨rfl, rfl⟩ := Prod.mk.inj he
  exact ⟨(List.mem_zipIdx' hz).2 ▸ List.getElem_mem _, by simpa using hk⟩

theorem mem_collectDrafts {a : Advisor α} {t : Trace α} {o : Options α} {d : Draft α}
    (h : d ∈ a.collectDrafts t o) : ∃ s ∈ a.sources, d ∈ findingsOf t o s := by
  obtain ⟨⟨i, s⟩, hs, hd⟩ := List.mem_flatMap.mp h
  obtain ⟨kind, -, hk⟩ := List.mem_flatMap.mp hs
  exact ⟨s, (mem_sourcesOf hk).1, hd⟩

theorem mem_collect {a : Advisor α} {t : Trace α} {o : Options α} {next : Nat}
    {s : Suggestion α} (h : s ∈ (a.collect t o next).result) :
    ∃ source ∈ a.sources, ∃ d ∈ findingsOf t o source, d.finding = s.toFinding := by
  have hf : s.toFinding ∈ (a.collectDrafts t o).map Draft.finding := by
    rw [← nameDrafts_findings a.identifier next]
    exact List.mem_map.mpr ⟨s, h, rfl⟩
  obtain ⟨d, hd, he⟩ := List.mem_map.mp hf
  obtain ⟨source, hs, hm⟩ := mem_collectDrafts hd
  exact ⟨source, hs, d, hm, he⟩

variable [Scalar α] [Numeral α]

theorem generateAll_result {a : Advisor α} {t : Trace α} {o : Options α} {next : Nat}
    (h : o.fault? = none) :
    (a.generateAll t o next).result =
      .ok (Suggestion.select o.thresholds o.maxSuggestions (a.collect t o next).result) := by
  rw [generateAll, h]

theorem mem_generateAll {a : Advisor α} {t : Trace α} {o : Options α}
    {next : Nat} {kept : List (Suggestion α)} {s : Suggestion α}
    (h : (a.generateAll t o next).result = .ok kept) (hs : s ∈ kept) :
    (∃ source ∈ a.sources, ∃ d ∈ findingsOf t o source, d.finding = s.toFinding) ∧
      Suggestion.meets o.thresholds s = true := by
  rw [generateAll] at h
  split at h
  · cases h
  · obtain rfl := Except.ok.inj h
    obtain ⟨hm, ht⟩ := Suggestion.mem_select hs
    exact ⟨mem_collect hm, ht⟩

end BuildAdvisor.Advisor
