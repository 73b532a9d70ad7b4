import BuildAdvisor.Advisor.BuiltIn
import BuildAdvisor.Proofs.Advisor.Run
import BuildAdvisor.Proofs.Split.Quality

/-!
What the built-in sources report.

* `mem_splitSource` — a split finding stands for the proposal of a header of the graph;
* `kind_of_mem_splitSource` — it is all that this source reports;
* `kind_of_mem_pchChanges`, `kind_of_mem_explicitInstantiations` — the other two sources report
  no splits;
* `confidence_le_quarter` — no split among the findings has a confidence above a quarter;
* `splits_below_quarter` — splits are reported with a confidence of at most a quarter, and so
  none passes a threshold above that.
-/

set_option autoImplicit false

namespace BuildAdvisor.Advisor

section Sources

variable {α : Type} [Scalar α]

theorem mem_splitSource {split : Split.Splitter α} {t : Trace α} {o : Options α} {d : Draft α}
    (h : d ∈ findingsOf t o (splitSource split)) :
    ∃ header p, split header (t.graph.dependents header) o.splitMinSymbols = .ok p ∧
      d.finding = splitFinding (t.graph.dependents header) p := by
  obtain ⟨f, hf, rfl⟩ := List.mem_map.mp h
  obtain ⟨header, -, hs⟩ := List.mem_filterMap.mp hf
  simp only [splitOf?] at hs
  split at hs
  · cases hs
  · split at hs
    next p hp =>
      obtain rfl := Option.some.inj hs
      exact ⟨header, p, hp, rfl⟩
    next => cases hs

theorem kind_of_mem_splitSource {split : Split.Splitter α} {t : Trace α} {o : Options α}
    {d : Draft α} (h : d ∈ findingsOf t o (splitSource split)) : d.finding.kind = .headerSplit := by
  obtain ⟨header, p, -, hf⟩ := mem_splitSource h
  rw [hf]
  rfl

variable [Numeral α]

theorem kind_of_mem_pchChanges {t : Trace α} {o : Options α} {d : Draft α}
    (h : d ∈ findingsOf t o pchChanges) : d.finding.kind ≠ .headerSplit := by
  obtain ⟨f, hf, rfl⟩ := List.mem_map.mp h
  rcases List.mem_append.mp hf with hf | hf
  · obtain ⟨c, -, rfl⟩ := List.mem_map.mp hf
    exact nofun
  · obtain ⟨header, -, rfl⟩ := List.mem_map.mp hf
    exact nofun

theorem kind_of_mem_explicitInstantiations {t : Trace α} {o : Options α} {d : Draft α}
    (h : d ∈ findingsOf t o explicitInstantiations) : d.finding.kind ≠ .headerSplit := by
  obtain ⟨hotspot, -, rfl⟩ := List.mem_map.mp h
  exact nofun

end Sources

/-! ## Confidence of splits -/

theorem one_div_sq_le_quarter {c : Nat} (hc : 2 ≤ c) : 1 / (c : Rat) ^ 2 ≤ 1 / 4 := by
  have hsq : 4 ≤ c ^ 2 := Nat.pow_le_pow_left hc 2
  have hcast : (4 : Rat) ≤ (c : Rat) ^ 2 := by exact_mod_cast hsq
  exact one_div_le_one_div_of_le (by norm_num) hcast

theorem presets_above_quarter : ∀ o ∈ [(Options.default : Options Rat), Options.strict],
    o.fault? = none ∧ 1 / 4 < o.minConfidence := by
  decide +kernel

section Confidence

variable {κ : Type} [Scalar κ] [Exponential κ] [Numeral Rat] {σ : Type}
  {sample : Random.Sampler σ} {inspector : Symbols.Inspector} {config : Split.Config Rat}
  {draws : String → σ}

theorem splitSource_confidence {t : Trace Rat} {o : Options Rat} {d : Draft Rat}
    (h : d ∈ findingsOf t o
      (splitSource (Split.splitterOver κ sample inspector config draws))) :
    ∃ labels m,
      Split.LabelledAs κ sample inspector config d.finding.file
        (t.graph.dependents d.finding.file) o.splitMinSymbols (draws d.finding.file) labels ∧
      labels.max? = some m ∧ d.finding.confidence = 1 / ((m + 1 : Nat) : Rat) ^ 2 ∧
      d.finding.relatedFiles.length ≤ m + 1 ∧ 2 ≤ m + 1 := by
  obtain ⟨header, p, hp, hf⟩ := mem_splitSource h
  obtain ⟨symbols, cache, label, a⟩ := Split.exists_analysed κ hp
  obtain ⟨labels, m, hl, hm, hc, hn, h2⟩ := Split.proposal_confidence hp
  have hfile : d.finding.file = header := by rw [hf]; exact a.header_eq
  refine ⟨labels, m, by rw [hfile]; exact hl, hm, by rw [hf]; exact hc, ?_, h2⟩
  rw [hf]
  simpa [splitFinding] using hn

/-- Of the built-in sources only one reports splits. -/
theorem confidence_le_quarter {t : Trace Rat} {o : Options Rat} {source : Source Rat}
    {d : Draft Rat}
    (hs : source ∈ builtInWith (Split.splitterOver κ sample inspector config draws))
    (hd : d ∈ findingsOf t o source) (hk : d.finding.kind = .headerSplit) :
    d.finding.confidence ≤ 1 / 4 := by
  simp only [builtInWith, List.mem_cons, List.not_mem_nil, or_false] at hs
  rcases hs with rfl | rfl | rfl
  · obtain ⟨labels, m, -, -, hc, -, h2⟩ := splitSource_confidence hd
    rw [hc]
    exact one_div_sq_le_quarter h2
  · exact absurd hk (kind_of_mem_pchChanges hd)
  · exact absurd hk (kind_of_mem_explicitInstantiations hd)

/-- A split is reported with one over the square of a number that is at least two, at least the
number of its parts, and fixed by the greatest label.  An advisor with the built-in sources
therefore keeps no split where more than a quarter is asked for, as by default and by the strict
options. -/
theorem splits_below_quarter (sample : Random.Sampler σ) (inspector : Symbols.Inspector)
    (config : Split.Config Rat) (draws : String → σ) (identifier : Nat → String) :
    let split := Split.splitterOver κ sample inspector config draws
    (∀ t o, ∃ drafts, (splitSource split).produce t o = .ok drafts ∧ ∀ d ∈ drafts,
      ∃ labels m,
        Split.LabelledAs κ sample inspector config d.finding.file
          (t.graph.dependents d.finding.file) o.splitMinSymbols (draws d.finding.file) labels ∧
        labels.max? = some m ∧ d.finding.confidence = 1 / ((m + 1 : Nat) : Rat) ^ 2 ∧
        d.finding.relatedFiles.length ≤ m + 1 ∧ 2 ≤ m + 1) ∧
    (∀ t o next, o.fault? = none → 1 / 4 < o.minConfidence →
      ∃ kept, (generateAll ⟨builtInWith split, identifier⟩ t o next).result = .ok kept ∧
        ∀ s ∈ kept, s.kind ≠ .headerSplit) ∧
    ∀ o ∈ [(Options.default : Options Rat), Options.strict],
      o.fault? = none ∧ 1 / 4 < o.minConfidence := by
  intro split
  refine ⟨?_, ?_, presets_above_quarter⟩
  · exact fun t o => ⟨_, rfl, fun d hd => splitSource_confidence (show d ∈ findingsOf t o _ from hd)⟩
  · intro t o next hf ho
    refine ⟨_, generateAll_result hf, ?_⟩
    intro s hs
    obtain ⟨⟨source, hsource, d, hd, he⟩, hmeets⟩ := mem_generateAll (generateAll_result hf) hs
    -- A split that is kept has the confidence asked for, which is more than splits have.
    have hmin : o.minConfidence ≤ s.confidence := by
      rw [Suggestion.meets, Bool.and_eq_true] at hmeets
      exact of_decide_eq_true hmeets.1
    intro hk
    have hle := confidence_le_quarter hsource hd (by rw [he]; exact hk)
    rw [he] at hle
    exact absurd (ho.trans_le hmin) (not_lt.mpr hle)

end Confidence

section Example

open scoped Rational

def mathTrace : Trace Rat :=
  let g := Graph.empty.addEdge "physics.cpp" (Edge.plain "math.h" .direct)
  { (Trace.empty : Trace Rat) with graph := g.addEdge "render.cpp" (Edge.plain "math.h" .direct) }

def mathOptions : Options Rat :=
  { (Options.default : Options Rat) with splitFanout := 2, splitMinSymbols := 2 }

/-- The bound is reached: here is a split with a confidence of a quarter. -/
example : (findingsOf mathTrace mathOptions (splitSource Split.mathSplitter)).map
    (fun d => d.finding.confidence) = [1 / 4] := by
  decide +kernel

theorem mathSplit_left_out :
    ∃ kept, (generateAll ⟨builtInWith Split.mathSplitter, toString⟩ mathTrace mathOptions 0).result
      = .ok kept ∧ ∀ s ∈ kept, s.kind ≠ .headerSplit := by
  have hfault : mathOptions.fault? = none := by decide +kernel
  have hmin : 1 / 4 < mathOptions.minConfidence := by decide +kernel
  obtain ⟨-, hsplits, -⟩ := splits_below_quarter (κ := Rat) Random.Generator.sample
    Split.mathTable.inspector Split.mathConfig (fun _ => Random.Generator.ofList []) toString
  exact hsplits mathTrace mathOptions 0 hfault hmin

end Example

end BuildAdvisor.Advisor
