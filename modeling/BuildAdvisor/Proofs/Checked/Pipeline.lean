import BuildAdvisor.Decimal.Layout
import BuildAdvisor.Proofs.Checked.Advisor
import BuildAdvisor.Proofs.Checked.Proposal
import BuildAdvisor.Proofs.Random.Sample
import BuildAdvisor.Proofs.Split.Cohesion
import BuildAdvisor.Proofs.Template.Depth

/-!
No fault in the whole pipeline, with the doubles of the program.

* `Manageable.of_run` — a graph of fewer edges than a counter of 32 bits has values;
* `pipeline_faultless` — every analysis, clustering and proposal computes what it does without
  looking for faults, but for names with too many open brackets;
* `loneBuild_overflows` — such a name.
-/

set_option autoImplicit false

namespace BuildAdvisor.Checked

theorem Manageable.of_run {ops : List Graph.Operation}
    (h : (Graph.EdgeLog.run ops).edges.length < UInt32.size) : Manageable (Graph.run ops) where
  reachable := ⟨ops, rfl⟩
  dependents_lt header := by
    rw [(Graph.tracks_run ops).dependents, List.length_map]
    exact (List.length_filter_le _ _).trans_lt h

/-- No operation of the pipeline is out of its domain: no divisor is zero, no lower bound is above
its upper bound, no index is behind the end, and no counter leaves its range.

The bounds on lists and texts are those of memory, with counters of 64 bits.  Dependents are
counted with 32 bits, and so are, with a sign, the brackets that are open in the argument list of a
name: instantiations are counted if this count keeps to its range in every name, for which it is
enough that there are fewer than `bracketLimit` brackets, and not otherwise. -/
theorem pipeline_faultless {σ : Type} {sample : Random.Sampler σ} (hs : sample.Distinct)
    {t : Trace Float} (ht : InMemory t) (htg : Manageable t.graph) {g : Graph}
    (hg : Manageable g) :
    (∀ count ratio, candidates t g count ratio = pure (Pch.candidates t g count ratio)) ∧
    (∀ headers, estimateSavings t g headers = pure (Pch.estimateSavings t g headers)) ∧
    (∀ file, effectiveness t file = pure (Pch.effectiveness t file)) ∧
    (∀ (p : Pch.Planner Float) current, plan p t g current = pure (p.plan t g current)) ∧
    (∀ o, pchChanges t o = pure (Advisor.pchChanges.produce t o)) ∧
    (NamesFit t → ∀ o,
      explicitInstantiations t o = pure (Advisor.explicitInstantiations.produce t o)) ∧
    (¬ NamesFit t → ∀ o, explicitInstantiations t o = .error .overflow) ∧
    (∀ name : String, name.utf8ByteSize < UInt64.size →
      (ListFits name.toList → normalName .fault UInt64.size name =
        pure (Template.normalize name)) ∧
      (¬ ListFits name.toList → normalName .fault UInt64.size name = .error .overflow) ∧
      (brackets name.toList < bracketLimit → ListFits name.toList)) ∧
    (∀ matrix, affinity matrix = pure (Split.affinity matrix : List (List Float))) ∧
    (∀ (points : List (List Float)) k rounds s, points.length < UInt64.size →
      kmeans sample points k rounds s = pure (Split.kmeans sample points k rounds s)) ∧
    (∀ (labels : List Nat) clusters, labels.length < UInt64.size → (∀ l ∈ labels, l < clusters) →
      qualityOf labels clusters = pure (Split.qualityOf labels clusters : Float)) ∧
    (∀ (matrix : List (List Nat)) k s, matrix.length < UInt64.size →
      clusterOver Float sample matrix k s =
        pure (Split.clusterOver Float sample matrix k s : Split.Clustering Float × σ)) ∧
    (∀ maxClusters symbols minimum, targetClusters maxClusters symbols minimum =
      pure (Split.targetClusters maxClusters symbols minimum)) ∧
    (∀ (inspector : Symbols.Inspector) (config : Split.Config Float) (header : String)
        (dependents : List String) minimum s, header.utf8ByteSize < UInt64.size →
      (∀ symbols, inspector.declared header = .ok symbols → symbols.size < UInt64.size) →
      dependents.length < UInt32.size →
      proposeOver Float sample inspector config header dependents minimum s =
        pure (Split.proposeOver Float sample inspector config header dependents minimum s)) := by
  refine ⟨candidates_eq hg t, estimateSavings_eq hg t, effectiveness_eq ht.units_lt,
    fun p => plan_eq hg p t, pchChanges_eq htg, explicitInstantiations_eq ht,
    explicitInstantiations_overflow ht, ?_, affinity_eq, ?_, ?_, ?_, targetClusters_eq, ?_⟩
  · exact fun name hlen => ⟨fun hfit => normalName_eq hlen (.inr hfit), normalName_overflow hlen,
      listFits_of_brackets_lt⟩
  · intro points k rounds s hpoints
    exact kmeans_eq hs hpoints k rounds s
  · intro labels clusters hlabels hbelow
    exact qualityOf_eq hlabels hbelow
  · intro matrix k s hmatrix
    exact clusterOver_eq Float hs hmatrix k s
  · intro inspector config header dependents minimum s hheader hsymbols hdependents
    exact proposeOver_eq Float hs inspector config hheader hsymbols hdependents minimum s

section Example

open BuildAdvisor.Split (mathTable mathSymbols mathTable_declared)

def boxUnit (path : String) (names : List String) : CompilationUnit Float :=
  { (CompilationUnit.empty : CompilationUnit Float) with
    path
    preprocessing := 4.0
    instantiations := names.map fun name => ⟨name, 0.5, []⟩ }

/-- Two units of three depend on the header, and one of them has two instances of a template. -/
def boxBuild : Trace Float :=
  { (Trace.empty : Trace Float) with
    units := [boxUnit "a.cpp" ["Box< int >", "Box<char>"], boxUnit "b.cpp" [], boxUnit "c.cpp" []]
    graph := Graph.run [.addEdge "a.cpp" "box.h" .direct, .addEdge "b.cpp" "box.h" .direct] }

theorem boxBuild_faultless :
    Random.Generator.sample.Distinct ∧ InMemory boxBuild ∧ Manageable boxBuild.graph ∧
      NamesFit boxBuild ∧
      candidates boxBuild boxBuild.graph 5 0.5 =
        pure (Pch.candidates boxBuild boxBuild.graph 5 0.5) ∧
      effectiveness boxBuild "box.h" = pure (.error (Pch.notBuilt "box.h")) ∧
      explicitInstantiations boxBuild Advisor.Options.default =
        pure (Advisor.explicitInstantiations.produce boxBuild Advisor.Options.default) ∧
      normalName .fault UInt64.size "Box< int >" = pure "Box<T>" ∧
      targetClusters 0 5 (UInt64.size - 1) = pure 2 ∧
      ∃ outcome, proposeOver Float Random.Generator.sample mathTable.inspector
        (Split.Config.default : Split.Config Float) "math.h" ["physics.cpp", "render.cpp"] 2
        (.ofList []) = pure outcome := by
  have hmemory : InMemory boxBuild := ⟨by decide, by decide, by decide⟩
  have hgraph : Manageable boxBuild.graph := Manageable.of_run (by decide)
  have hsymbols : ∀ symbols, mathTable.inspector.declared "math.h" = .ok symbols →
      symbols.size < UInt64.size := by
    intro symbols hd
    obtain rfl : mathSymbols = symbols := Except.ok.inj (mathTable_declared.symm.trans hd)
    decide +kernel
  obtain ⟨hcandidates, -, heffectiveness, -, -, hexplicit, -, hname, -, -, -, -, htarget,
    hpropose⟩ := pipeline_faultless Random.Generator.sample_distinct hmemory hgraph hgraph
  obtain ⟨hnormal, -, hfew⟩ := hname "Box< int >" (by decide)
  have hfit : NamesFit boxBuild := by
    rw [NamesFit]
    decide +kernel
  refine ⟨Random.Generator.sample_distinct, hmemory, hgraph, hfit, hcandidates 5 0.5,
    heffectiveness "box.h", hexplicit hfit _, hnormal (hfew (by decide)),
    htarget 0 5 (UInt64.size - 1), _, hpropose _ _ _ _ _ _ (by decide) hsymbols (by decide)⟩

/-- One instance of one template. -/
def loneBuild (name : String) : Trace Float :=
  { (Trace.empty : Trace Float) with units := [boxUnit "lone.cpp" [name]] }

theorem instantiations_loneBuild (name : String) :
    Template.instantiations (loneBuild name) = [("lone.cpp", ⟨name, 0.5, []⟩)] := rfl

theorem inMemory_loneBuild {name : String} (hlen : name.utf8ByteSize < UInt64.size) :
    InMemory (loneBuild name) := by
  have hone : 1 < UInt64.size := by decide
  refine ⟨hone, hone, ?_⟩
  rw [instantiations_loneBuild]
  exact fun r hr => List.mem_singleton.mp hr ▸ hlen

theorem namesFit_loneBuild {name : String} : NamesFit (loneBuild name) ↔ ListFits name.toList := by
  rw [NamesFit, instantiations_loneBuild, List.forall_mem_singleton]

theorem loneBuild_overflows :
    let t := loneBuild (Template.deepCall bracketLimit)
    InMemory t ∧ Manageable t.graph ∧ ∀ o, explicitInstantiations t o = .error .overflow := by
  have hlen : (Template.deepCall bracketLimit).utf8ByteSize < UInt64.size := by
    rw [Template.utf8ByteSize_deepCall]
    decide
  have hmemory := inMemory_loneBuild hlen
  have hfit := mt namesFit_loneBuild.mp (Template.not_listFits_deepCall le_rfl)
  exact ⟨hmemory, Manageable.of_run (by decide : (Graph.EdgeLog.run []).edges.length < _),
    explicitInstantiations_overflow hmemory hfit⟩

end Example

end BuildAdvisor.Checked
