import BuildAdvisor.Decimal.Layout
import BuildAdvisor.Proofs.Advisor.BuiltIn
import BuildAdvisor.Proofs.Pch.Savings
import BuildAdvisor.Proofs.Scalar.Vanishing

/-!
Precompiled headers that nothing includes.

* `mem_removals_iff` — the removals among the findings, one for each rarely used header;
* `costOf_vanishes` — only a unit with preprocessing time makes a header cost anything;
* `removalSavings_of_unused` — a header without dependents is certain to be unused, and removing
  it saves nothing;
* `dependents_ne_nil_of_kept` — a removal that passes a threshold above zero concerns a header with
  dependents;
* `unused_removals_lost` — so the removal of any other header is found, and lost again wherever
  savings are asked for.
-/

set_option autoImplicit false

namespace BuildAdvisor.Advisor

open BuildAdvisor.Graph

/-! ## Removals among the findings -/

section Removals

variable {α : Type} [Scalar α] [Numeral α] {t : Trace α} {o : Options α}

/-- What a run reports of a header to remove. -/
def removalOf (t : Trace α) (o : Options α) (header : String) : Finding α :=
  removalFinding t.units.length (Pch.perFileCosts t t.graph) t.graph o.currentPch header

theorem mem_removals_iff {f : Finding α} :
    f ∈ pchFindings t o ∧ f.kind = .pchRemoval ↔
      f.file ∈ Pch.rarelyUsed t t.graph o.currentPch ∧ f = removalOf t o f.file := by
  constructor
  · rintro ⟨hf, hkind⟩
    rcases List.mem_append.mp hf with hf | hf
    · obtain ⟨c, -, rfl⟩ := List.mem_map.mp hf
      cases hkind
    · obtain ⟨header, hm, rfl⟩ := List.mem_map.mp hf
      exact ⟨hm, rfl⟩
  · rintro ⟨hm, hf⟩
    rw [hf]
    exact ⟨List.mem_append_right _ (List.mem_map_of_mem hm), rfl⟩

/-- Of the built-in sources only one reports removals. -/
theorem mem_removals_of_builtIn {split : Split.Splitter α} {source : Source α} {d : Draft α}
    (hs : source ∈ builtInWith split) (hd : d ∈ findingsOf t o source)
    (hk : d.finding.kind = .pchRemoval) : d.finding ∈ pchFindings t o := by
  simp only [builtInWith, List.mem_cons, List.not_mem_nil, or_false] at hs
  rcases hs with rfl | rfl | rfl
  · rw [kind_of_mem_splitSource hd] at hk
    cases hk
  · obtain ⟨f, hf, rfl⟩ := List.mem_map.mp hd
    exact hf
  · obtain ⟨hotspot, -, rfl⟩ := List.mem_map.mp hd
    cases hk

end Removals

/-! ## What a removal saves -/

section Savings

variable {t : Trace Float} {g : Graph} {header : String}

/-- An undefined time is charged too, but then the cost is undefined as well. -/
theorem costOf_vanishes
    (hnone : ∀ u ∈ t.units, header ∈ g.dependencies u.path → ¬ 0.0 < u.preprocessing) :
    Double.Vanishes (Pch.costOf (Pch.perFileCosts t g) header) := by
  by_cases hm : header ∈ Pch.collected t g
  · obtain ⟨u, hu, htime, htarget⟩ := Pch.mem_collected_iff.mp hm
    have hnan : u.preprocessing.isNaN = true :=
      (Double.not_le_zero_iff.mp htime).resolve_left (hnone u hu htarget)
    have htotal : ((Pch.collected t g).getD header 0.0).isNaN = true := by
      rw [Pch.getD_collected_eq_foldl]
      apply Double.isNaN_foldl_add
      refine .inr ⟨_, List.mem_map.mpr ⟨(header, _), List.mem_filter.mpr ⟨List.mem_flatMap.mpr
        ⟨u, hu, Pch.mem_shares_iff.mpr ⟨htime, htarget, rfl⟩⟩, by simp⟩, rfl⟩, ?_⟩
      exact Double.isNaN_div hnan _
    rw [Pch.costOf_of_mem hm]
    split
    · exact Double.vanishes_div (Double.vanishes_of_isNaN htotal) _
    · exact Double.vanishes_of_isNaN htotal
  · rw [Pch.costOf_eq_zero hm]
    exact Double.vanishes_zero

theorem removalSavings_vanishes {units : Nat} {costs : Table Float}
    (h : Double.Vanishes (Pch.costOf costs header)) :
    Double.Vanishes (removalSavings units costs g header) :=
  Double.vanishes_mul (Double.vanishes_mul h _) _

theorem exists_payer (h : 0.0 < removalSavings t.units.length (Pch.perFileCosts t g) g header) :
    ∃ u ∈ t.units, 0.0 < u.preprocessing ∧ header ∈ g.dependencies u.path := by
  by_contra hnone
  refine Double.not_zero_lt_of_vanishes (removalSavings_vanishes (costOf_vanishes ?_)) h
  exact fun u hu hm htime => hnone ⟨u, hu, htime, hm⟩

variable {units : Nat} (hunused : g.dependents header = [])

include hunused

theorem usageRatio_of_unused (hunits : 0 < units) :
    (Pch.usageRatio g header units : Float) = 0.0 ∨
      (Pch.usageRatio g header units : Float) = -0.0 := by
  rw [Pch.usageRatio, if_neg hunits.ne', hunused]
  exact Double.zero_div_cast hunits

theorem costOf_of_unused {l : EdgeLog} (h : Tracks g l) :
    Pch.costOf (Pch.perFileCosts t g) header = 0.0 := by
  refine Pch.costOf_eq_zero fun hm => ?_
  have hpos := Pch.dependents_pos h hm
  rw [hunused] at hpos
  exact Nat.lt_irrefl 0 hpos

theorem removalSavings_of_unused {l : EdgeLog} (h : Tracks g l) (hsize : units < UInt64.size) :
    removalSavings units (Pch.perFileCosts t g) g header = 0.0 := by
  have hidle : (0.0 : Float) * Float.ofNat units = 0.0 := Double.zero_mul_cast hsize
  rw [removalSavings, costOf_of_unused hunused h, hunused]
  calc
    (0.0 : Float) * Float.ofNat units * 0.1 = 0.0 * 0.1 := by rw [hidle]
    _ = 0.0 := Double.zero_mul_tenth

end Savings

/-! ## Headers that nothing includes -/

/-- Either zero is a rare use and leaves full confidence. -/
theorem rare_of_zero {ratio : Float} (h : ratio = 0.0 ∨ ratio = -0.0) :
    ratio < Pch.rareRatio ∧ Scalar.clampUnit (1.0 - ratio) = 1.0 := by
  rcases h with rfl | rfl <;> decide +kernel

section Unused

variable {t : Trace Float} {o : Options Float} {header : String}
  (hunused : t.graph.dependents header = []) (hunits : t.units ≠ [])

include hunused hunits

theorem mem_rarelyUsed_of_unused (hm : header ∈ o.currentPch) :
    header ∈ Pch.rarelyUsed t t.graph o.currentPch := by
  have hlength := List.length_pos_iff.mpr hunits
  rw [Pch.rarelyUsed, if_neg hlength.ne', List.mem_filter, decide_eq_true_iff]
  exact ⟨hm, (rare_of_zero (usageRatio_of_unused hunused hlength)).1⟩

theorem removalOf_confidence_of_unused : (removalOf t o header).confidence = 1.0 :=
  (rare_of_zero (usageRatio_of_unused hunused (List.length_pos_iff.mpr hunits))).2

end Unused

/-- What is kept saves something, so a unit pays for the header, and depends on it. -/
theorem dependents_ne_nil_of_kept {t : Trace Float} {o : Options Float} {l : EdgeLog}
    (h : Tracks t.graph l) (hmin : 0.0 < o.minSavings) {split : Split.Splitter Float}
    {others : List (Source Float)} {identifier : Nat → String} {next : Nat}
    (hothers : ∀ source ∈ others, ∀ d ∈ findingsOf t o source, d.finding.kind = .pchRemoval →
      t.graph.dependents d.finding.file ≠ [])
    {kept : List (Suggestion Float)}
    (hkept : (generateAll ⟨builtInWith split ++ others, identifier⟩ t o next).result = .ok kept)
    {s : Suggestion Float} (hs : s ∈ kept) (hkind : s.kind = .pchRemoval) :
    t.graph.dependents s.file ≠ [] := by
  obtain ⟨⟨source, hsource, d, hd, he⟩, hmeets⟩ := mem_generateAll hkept hs
  have hpos : 0.0 < s.savings := Double.lt_of_lt_of_le hmin (Suggestion.meets_iff.mp hmeets).2
  rw [← he] at hkind hpos ⊢
  rcases List.mem_append.mp hsource with hbuiltIn | hother
  · have hremoval := mem_removals_of_builtIn hbuiltIn hd hkind
    rw [(mem_removals_iff.mp ⟨hremoval, hkind⟩).2] at hpos
    obtain ⟨u, -, -, htarget⟩ := exists_payer hpos
    exact List.ne_nil_of_mem (h.mem_dependents.mpr htarget)
  · exact hothers source hother d hd hkind

/-- A listed header without dependents is reported with full confidence, and with savings of
exactly zero as long as a machine word counts the units.  Savings above zero take a unit with
preprocessing time that includes the header.  So where any savings are asked for, as by default,
no advisor with the built-in sources keeps the removal, if its other sources do not report it. -/
theorem unused_removals_lost (ops : List Operation) (t : Trace Float) (o : Options Float)
    (hgraph : t.graph = run ops) (hunits : t.units ≠ []) (hvalid : o.fault? = none) :
    (∃ drafts, pchChanges.produce t o = .ok drafts ∧
      (∀ header ∈ o.currentPch, t.graph.dependents header = [] →
        (∃ d ∈ drafts, d.finding.kind = .pchRemoval ∧ d.finding.file = header) ∧
        ∀ d ∈ drafts, d.finding.kind = .pchRemoval → d.finding.file = header →
          d.finding.confidence = 1.0 ∧
            (t.units.length < UInt64.size → d.finding.savings = 0.0)) ∧
      ∀ d ∈ drafts, d.finding.kind = .pchRemoval → 0.0 < d.finding.savings →
        ∃ u ∈ t.units, 0.0 < u.preprocessing ∧
          d.finding.file ∈ t.graph.dependencies u.path) ∧
    (0.0 < o.minSavings → ∀ (split : Split.Splitter Float) (others : List (Source Float))
      (identifier : Nat → String) (next : Nat),
      (∀ source ∈ others, ∀ d ∈ findingsOf t o source, d.finding.kind = .pchRemoval →
        t.graph.dependents d.finding.file ≠ []) →
      ∃ kept,
        (generateAll ⟨builtInWith split ++ others, identifier⟩ t o next).result = .ok kept ∧
        ∀ s ∈ kept, s.kind = .pchRemoval → t.graph.dependents s.file ≠ []) ∧
    (Options.default : Options Float).fault? = none ∧
      (Options.default : Options Float).minSavings = 10.0 ∧ (0.0 : Float) < 10.0 := by
  have htracks : Tracks t.graph (EdgeLog.run ops) := hgraph ▸ tracks_run ops
  have hremoval : ∀ d ∈ (pchFindings t o).map Draft.unnamed, d.finding.kind = .pchRemoval →
      d.finding = removalOf t o d.finding.file := by
    intro d hd hkind
    obtain ⟨f, hf, rfl⟩ := List.mem_map.mp hd
    exact (mem_removals_iff.mp ⟨hf, hkind⟩).2
  refine ⟨⟨_, rfl, ?_, ?_⟩, ?_, by decide +kernel⟩
  · intro header hm hunused
    refine ⟨⟨Draft.unnamed (removalOf t o header), List.mem_map_of_mem ?_, rfl, rfl⟩, ?_⟩
    · have hrare := mem_rarelyUsed_of_unused hunused hunits hm
      exact (mem_removals_iff.mpr ⟨hrare, rfl⟩).1
    · rintro d hd hkind rfl
      rw [hremoval d hd hkind]
      exact ⟨removalOf_confidence_of_unused hunused hunits,
        removalSavings_of_unused hunused htracks⟩
  · intro d hd hkind hpos
    rw [hremoval d hd hkind] at hpos
    exact exists_payer hpos
  · intro hmin split others identifier next hothers
    have hresult : (generateAll ⟨builtInWith split ++ others, identifier⟩ t o next).result =
        .ok _ := generateAll_result hvalid
    exact ⟨_, hresult, fun s hs hkind =>
      dependents_ne_nil_of_kept htracks hmin hothers hresult hs hkind⟩

section Example

def staleOperations : List Operation :=
  [.addEdge "main.cpp" "rare.h" .direct]

/-- Of eleven units one includes a header. -/
def staleTrace : Trace Float :=
  { (Trace.empty : Trace Float) with
    units := Pch.timedUnit "main.cpp" 80 :: List.replicate 10 (Pch.timedUnit "idle.cpp" 0)
    graph := run staleOperations }

/-- Another listed header is included by none. -/
def staleOptions : Options Float :=
  { (Options.default : Options Float) with currentPch := ["stale.h", "rare.h"] }

theorem staleRemoval_lost :
    staleTrace.graph.dependents "stale.h" = [] ∧ 0.0 < staleOptions.minSavings ∧
    (∃ drafts, pchChanges.produce staleTrace staleOptions = .ok drafts ∧
      (∃ d ∈ drafts, d.finding.kind = .pchRemoval ∧ d.finding.file = "stale.h" ∧
        d.finding.confidence = 1.0 ∧ d.finding.savings = 0.0) ∧
      ∃ d ∈ drafts, d.finding.file = "rare.h" ∧ 0.0 < d.finding.savings ∧
        ∃ u ∈ staleTrace.units, 0.0 < u.preprocessing ∧
          "rare.h" ∈ staleTrace.graph.dependencies u.path) ∧
    ∃ kept, (generateAll ⟨builtIn Split.mathTable.inspector Split.Config.default, toString⟩
        staleTrace staleOptions 0).result = .ok kept ∧
      ∀ s ∈ kept, s.kind = .pchRemoval → s.file ≠ "stale.h" := by
  have hunused : staleTrace.graph.dependents "stale.h" = [] := by decide +kernel
  have hmin : 0.0 < staleOptions.minSavings := by decide +kernel
  obtain ⟨⟨drafts, hdrafts, hunusedFound, hpaid⟩, hkept, -⟩ := unused_removals_lost staleOperations
    staleTrace staleOptions rfl (List.cons_ne_nil _ _) (by decide +kernel)
  refine ⟨hunused, hmin, ⟨drafts, hdrafts, ?_, ?_⟩, ?_⟩
  · obtain ⟨⟨d, hd, hkind, hfile⟩, hall⟩ :=
      hunusedFound "stale.h" (List.mem_cons_self ..) hunused
    obtain ⟨hconfidence, hsavings⟩ := hall d hd hkind hfile
    exact ⟨d, hd, hkind, hfile, hconfidence, hsavings (by decide)⟩
  · have hrare : "rare.h" ∈ Pch.rarelyUsed staleTrace staleTrace.graph staleOptions.currentPch := by
      decide +kernel
    have hd : Draft.unnamed (removalOf staleTrace staleOptions "rare.h") ∈ drafts := by
      rw [← Except.ok.inj hdrafts]
      exact List.mem_map_of_mem (mem_removals_iff.mpr ⟨hrare, rfl⟩).1
    have hpos : 0.0 < (removalOf staleTrace staleOptions "rare.h").savings := by decide +kernel
    exact ⟨_, hd, rfl, hpos, hpaid _ hd rfl hpos⟩
  · obtain ⟨kept, hresult, hdependents⟩ := hkept hmin
      (Split.propose Split.mathTable.inspector Split.Config.default) [] toString 0 nofun
    refine ⟨kept, hresult, fun s hs hkind hfile => ?_⟩
    exact hdependents s hs hkind (hfile ▸ hunused)

end Example

end BuildAdvisor.Advisor
