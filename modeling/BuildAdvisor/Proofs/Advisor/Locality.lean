import BuildAdvisor.Proofs.Advisor.BuiltIn
import BuildAdvisor.Proofs.Graph.Record

/-!
Splits of different headers do not depend on each other.

* `splitOf?_eq_some_iff` — when a header has a finding, and which;
* `file_of_splitOf?` — findings are about the header they come from, if the splitter is faithful;
* `mem_splitFindings_iff`, `splitFindings_ascending` — the headers with a finding, in order;
* `mem_splitFindings_congr` — in two graphs a header with the same dependents has the same finding;
* `headerSplits_local` — so it is for the source with a seed, whatever becomes of other headers.
-/

set_option autoImplicit false

namespace BuildAdvisor.Advisor

section Findings

variable {α : Type} [Scalar α]

def splitFindings (split : Split.Splitter α) (g : Graph) (o : Options α) : List (Finding α) :=
  g.nodes.filterMap (splitOf? split g o)

/-- What is proposed for a header is about that header. -/
def Faithful (split : Split.Splitter α) : Prop :=
  ∀ header dependents minimum p, split header dependents minimum = .ok p → p.header = header

theorem faithful_splitterOver (κ : Type) [Scalar κ] [Exponential κ] [Numeral α] {σ : Type}
    (sample : Random.Sampler σ) (inspector : Symbols.Inspector) (config : Split.Config α)
    (draws : String → σ) : Faithful (Split.splitterOver κ sample inspector config draws) := by
  intro header dependents minimum p h
  obtain ⟨symbols, cache, label, a⟩ := Split.exists_analysed κ h
  exact a.header_eq

variable {split : Split.Splitter α} {g g' : Graph} {o : Options α} {header : String}

theorem splitOf?_eq_some_iff {f : Finding α} :
    splitOf? split g o header = some f ↔
      o.splitFanout ≤ (g.dependents header).length ∧
      ∃ p, split header (g.dependents header) o.splitMinSymbols = .ok p ∧
        f = splitFinding (g.dependents header) p := by
  rw [splitOf?, ← Nat.not_lt]
  by_cases hfew : (g.dependents header).length < o.splitFanout
  · simp [hfew]
  · cases split header (g.dependents header) o.splitMinSymbols with
    | error e => simp [hfew]
    | ok p => simp [hfew, eq_comm]

/-- Of the graph, only the dependents of the header are looked at. -/
theorem splitOf?_congr (h : g.dependents header = g'.dependents header) :
    splitOf? split g o header = splitOf? split g' o header := by
  rw [splitOf?, splitOf?, h]

theorem file_of_splitOf? (hsplit : Faithful split) {f : Finding α}
    (h : splitOf? split g o header = some f) : f.file = header := by
  obtain ⟨-, p, hp, rfl⟩ := splitOf?_eq_some_iff.mp h
  exact hsplit _ _ _ p hp

theorem mem_splitFindings_iff (hsplit : Faithful split) {f : Finding α} :
    f ∈ splitFindings split g o ∧ f.file = header ↔
      header ∈ g.nodes ∧ splitOf? split g o header = some f := by
  rw [splitFindings, List.mem_filterMap]
  constructor
  · rintro ⟨⟨node, hm, hf⟩, hfile⟩
    obtain rfl : node = header := (file_of_splitOf? hsplit hf).symm.trans hfile
    exact ⟨hm, hf⟩
  · rintro ⟨hm, hf⟩
    exact ⟨⟨header, hm, hf⟩, file_of_splitOf? hsplit hf⟩

/-- The nodes ascend, and each has one finding at most, about itself. -/
theorem splitFindings_ascending (hsplit : Faithful split) :
    ((splitFindings split g o).map Finding.file).Pairwise (· < ·) := by
  rw [List.pairwise_map, splitFindings, List.pairwise_filterMap]
  refine (Graph.nodes_ascending g).imp ?_
  intro header header' hlt f hf f' hf'
  rwa [file_of_splitOf? hsplit hf, file_of_splitOf? hsplit hf']

theorem mem_splitFindings_congr (hsplit : Faithful split) (hm : header ∈ g.nodes)
    (hm' : header ∈ g'.nodes) (h : g.dependents header = g'.dependents header) {f : Finding α}
    (hf : f.file = header) : f ∈ splitFindings split g o ↔ f ∈ splitFindings split g' o := by
  have hiff : f ∈ splitFindings split g o ∧ f.file = header ↔
      f ∈ splitFindings split g' o ∧ f.file = header := by
    rw [mem_splitFindings_iff hsplit, mem_splitFindings_iff hsplit, splitOf?_congr h]
    simp only [hm, hm', true_and]
  simpa only [hf, and_true] using hiff

end Findings

/-! ## The source with a seed -/

section Source

variable {α : Type} [Scalar α] [Numeral α] [Exponential α]

/-- The analysis of a header that begins with the generator of a seed. -/
def seededAnalysis (inspector : Symbols.Inspector) (config : Split.Config α) (seed : UInt64)
    (o : Options α) (header : String) (dependents : List String) :
    Except AnalysisError (Split.Proposal α) :=
  (Split.proposeWith Random.Generator.sample inspector config header dependents o.splitMinSymbols
    (Random.Generator.ofSeed seed)).1

theorem seededAnalysis_of_declared_error {inspector : Symbols.Inspector} {header : String}
    {e : AnalysisError} (h : inspector.declared header = .error e) (config : Split.Config α)
    (seed : UInt64) (o : Options α) (dependents : List String) :
    seededAnalysis inspector config seed o header dependents = .error e := by
  rw [seededAnalysis, Split.proposeWith, Split.proposeOver, h]

variable {inspector : Symbols.Inspector} {config : Split.Config α} {seed : UInt64}
  {g : Graph} {o : Options α}

theorem faithful_propose : Faithful (Split.propose inspector config) :=
  faithful_splitterOver α Random.Generator.sample inspector config _

theorem propose_of_seed (hseed : config.seed = some seed) (header : String)
    (dependents : List String) :
    Split.propose inspector config header dependents o.splitMinSymbols =
      seededAnalysis inspector config seed o header dependents := by
  rw [Split.propose, Split.splitterOver, Split.Config.generator, hseed]
  rfl

theorem mem_splitFindings_of_seed (hseed : config.seed = some seed) {header : String}
    {f : Finding α} :
    f ∈ splitFindings (Split.propose inspector config) g o ∧ f.file = header ↔
      header ∈ g.nodes ∧ o.splitFanout ≤ (g.dependents header).length ∧
      ∃ p, seededAnalysis inspector config seed o header (g.dependents header) = .ok p ∧
        f = splitFinding (g.dependents header) p := by
  rw [mem_splitFindings_iff faithful_propose, splitOf?_eq_some_iff, propose_of_seed hseed]

theorem splitFindings_eq_nil (hseed : config.seed = some seed)
    (hfail : ∀ header, ∃ e, inspector.declared header = .error e) :
    splitFindings (Split.propose inspector config) g o = [] := by
  refine List.eq_nil_iff_forall_not_mem.mpr fun f hf => ?_
  obtain ⟨-, -, p, hp, -⟩ := (mem_splitFindings_of_seed hseed).mp ⟨hf, rfl⟩
  obtain ⟨e, he⟩ := hfail f.file
  rw [seededAnalysis_of_declared_error he] at hp
  cases hp

end Source

/-- With a seed the source never fails.  It reports at most one split for each node, nodes
ascending: the one that the analysis of the node proposes, begun afresh, if the node has enough
dependents.  Two traces that give a node the same dependents have the same findings about it,
whatever their other nodes are and whichever inspections fail; where all of them fail, there are
none. -/
theorem headerSplits_local {α : Type} [Scalar α] [Numeral α] [Exponential α]
    (inspector : Symbols.Inspector) (config : Split.Config α) (seed : UInt64)
    (hseed : config.seed = some seed) (o : Options α) :
    let analysis := seededAnalysis inspector config seed o
    ∃ findings : Trace α → List (Finding α),
      (∀ t, (headerSplits inspector config).produce t o =
        .ok ((findings t).map Draft.unnamed)) ∧
      (∀ t, ((findings t).map Finding.file).Pairwise (· < ·)) ∧
      (∀ t header f, f ∈ findings t ∧ f.file = header ↔
        header ∈ t.graph.nodes ∧ o.splitFanout ≤ (t.graph.dependents header).length ∧
        ∃ p, analysis header (t.graph.dependents header) = .ok p ∧
          f = splitFinding (t.graph.dependents header) p) ∧
      (∀ t t' header, header ∈ t.graph.nodes → header ∈ t'.graph.nodes →
        t.graph.dependents header = t'.graph.dependents header →
        ∀ f, f.file = header → (f ∈ findings t ↔ f ∈ findings t')) ∧
      ((∀ header, ∃ e, inspector.declared header = .error e) → ∀ t, findings t = []) := by
  intro analysis
  refine ⟨fun t => splitFindings (Split.propose inspector config) t.graph o, fun t => rfl,
    ?_, ?_, ?_, ?_⟩
  · exact fun t => splitFindings_ascending faithful_propose
  · exact fun t header f => mem_splitFindings_of_seed hseed
  · intro t t' header hm hm' h f hf
    exact mem_splitFindings_congr faithful_propose hm hm' h hf
  · exact fun hfail t => splitFindings_eq_nil hseed hfail

section Example

open scoped Rational

def seededConfig : Split.Config Rat :=
  { Split.mathConfig with seed := some 42 }

/-- The header with two halves, between one that cannot be inspected and one of little use. -/
def crowdedTrace : Trace Rat :=
  { (Trace.empty : Trace Rat) with
    graph := Graph.run [.addEdge "physics.cpp" "a.h" .direct, .addEdge "render.cpp" "a.h" .direct,
      .addEdge "physics.cpp" "math.h" .direct, .addEdge "main.cpp" "z.h" .direct,
      .addEdge "render.cpp" "math.h" .direct] }

theorem math_has_split :
    (findingsOf mathTrace mathOptions (headerSplits Split.mathTable.inspector seededConfig)).map
      (fun d => d.finding.file) = ["math.h"] := by
  decide +kernel

theorem crowded_same_split :
    seededConfig.seed = some 42 ∧ ∃ f : Finding Rat, f.file = "math.h" ∧
      ∀ t ∈ [mathTrace, crowdedTrace], ∃ drafts,
        (headerSplits Split.mathTable.inspector seededConfig).produce t mathOptions = .ok drafts ∧
          Draft.unnamed f ∈ drafts := by
  have hseed : seededConfig.seed = some 42 := rfl
  obtain ⟨findings, hproduce, -, -, hsame, -⟩ :=
    headerSplits_local Split.mathTable.inspector seededConfig 42 hseed mathOptions
  have hfiles := math_has_split
  rw [findingsOf, hproduce] at hfiles
  obtain ⟨d, hd, hfile⟩ := List.mem_map.mp (hfiles ▸ List.mem_singleton.mpr rfl)
  obtain ⟨f, hf, rfl⟩ := List.mem_map.mp hd
  have hcrowded : f ∈ findings crowdedTrace :=
    (hsame mathTrace crowdedTrace "math.h" (by decide +kernel) (by decide +kernel)
      (by decide +kernel) f hfile).mp hf
  refine ⟨hseed, f, hfile, ?_⟩
  intro t ht
  refine ⟨_, hproduce t, List.mem_map_of_mem ?_⟩
  rcases List.mem_pair.mp ht with rfl | rfl
  · exact hf
  · exact hcrowded

end Example

end BuildAdvisor.Advisor
