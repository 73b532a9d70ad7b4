import BuildAdvisor.Proofs.Graph.Codec
import BuildAdvisor.Trace.Codec

/-!
A build trace read back from its data.

* `CompilationUnit.IsFinite`, `Metrics.IsFinite`, `Trace.IsFinite` — no number of a trace is
  infinite or undefined;
* `Metrics.dataOf`, `Trace.dataOf` — the data with the percentiles in any order, since the order
  in which a hashed table is written is not fixed;
* `Instantiation.ofData?_toData`, `CompilationUnit.ofData?_toData`, `Metrics.ofData?_dataOf`,
  `Trace.ofData?_dataOf` — one round trip for each part of a trace;
* `Trace.reload` — a trace of finite numbers, whose graph was built by the operations of graphs,
  is read back as it was written.
-/

set_option autoImplicit false

namespace BuildAdvisor

open Data

/-! ## Units -/

theorem Instantiation.ofData?_toData {i : Instantiation Float} (h : i.time.isFinite = true) :
    Instantiation.ofData? i.toData = some i := by
  unfold Instantiation.ofData? Instantiation.toData
  refine Value.read_record rfl (by decide) fun f hget => ?_
  simp only [List.forall_mem_cons] at hget
  simp only [Fields.required, Fields.optional, hget, Option.bind_eq_bind, Option.bind_some,
    Value.text?, Value.double?_ofDouble h, Value.texts?_strings]

structure CompilationUnit.IsFinite (u : CompilationUnit Float) : Prop where
  total : u.total.isFinite = true
  preprocessing : u.preprocessing.isFinite = true
  parsing : u.parsing.isFinite = true
  codegen : u.codegen.isFinite = true
  optimization : u.optimization.isFinite = true
  instantiations : ∀ i ∈ u.instantiations, i.time.isFinite = true

theorem CompilationUnit.ofData?_toData {u : CompilationUnit Float} (h : u.IsFinite) :
    CompilationUnit.ofData? u.toData = some u := by
  have hinstantiations : Value.list? Instantiation.ofData?
      (.ofList Instantiation.toData u.instantiations) = some u.instantiations :=
    Value.list?_ofList fun i hi => Instantiation.ofData?_toData (h.instantiations i hi)
  unfold CompilationUnit.ofData? CompilationUnit.toData
  refine Value.read_record rfl (by decide) fun f hget => ?_
  simp only [List.forall_mem_cons] at hget
  simp only [Fields.optional, hget, Option.bind_eq_bind, Option.bind_some, Value.text?,
    Value.double?_ofDouble h.total, Value.double?_ofDouble h.preprocessing,
    Value.double?_ofDouble h.parsing, Value.double?_ofDouble h.codegen,
    Value.double?_ofDouble h.optimization, Value.texts?_strings, hinstantiations]

/-! ## Metrics -/

structure Metrics.IsFinite (m : Metrics Float) : Prop where
  buildTime : m.buildTime.isFinite = true
  percentiles : ∀ p ∈ m.percentiles.toList, p.2.isFinite = true

/-- The data of some metrics with the percentiles written in a given order. -/
def Metrics.dataOf (m : Metrics Float) (entries : List (String × Float)) : Value :=
  .record [("total_build_time_ms", .ofDouble m.buildTime),
    ("total_files", .ofNat m.fileCount.toNat),
    ("percentiles", .record (entries.map fun p => (p.1, .ofDouble p.2)))]

theorem Metrics.toData_eq (m : Metrics Float) : m.toData = m.dataOf m.percentiles.toList := rfl

theorem Metrics.ofData?_dataOf {m : Metrics Float} (h : m.IsFinite)
    {entries : List (String × Float)} (hentries : entries.Perm m.percentiles.toList) :
    Metrics.ofData? (m.dataOf entries) = some m := by
  have hpercentiles : Value.map? Value.double?
      (.record (entries.map fun p => (p.1, .ofDouble p.2))) = some m.percentiles :=
    Value.map?_record hentries fun p hp =>
      Value.double?_ofDouble (h.percentiles p (hentries.mem_iff.mp hp))
  have hcount : Value.count? (.ofNat m.fileCount.toNat) = some m.fileCount.toNat :=
    Value.natural?_ofNat m.fileCount.toNat_lt
  unfold Metrics.ofData? Metrics.dataOf
  refine Value.read_record rfl (by decide) fun f hget => ?_
  simp only [List.forall_mem_cons] at hget
  simp only [Fields.optional, hget, Option.bind_eq_bind, Option.bind_some,
    Value.double?_ofDouble h.buildTime, hcount, hpercentiles, UInt64.ofNat_toNat]

/-! ## Traces -/

structure Trace.IsFinite (t : Trace Float) : Prop where
  units : ∀ u ∈ t.units, u.IsFinite
  weights : ∀ e ∈ t.graph.edges, e.weight.isFinite = true
  metrics : t.metrics.IsFinite

namespace Trace

variable {t : Trace Float} {ops : List Graph.Operation} {entries : List (String × Float)}

def dataOf (t : Trace Float) (entries : List (String × Float)) : Value :=
  .record [("trace_id", .string t.id), ("build_system", .string t.buildSystem),
    ("compilation_units", .ofList CompilationUnit.toData t.units),
    ("dependency_graph", t.graph.toData), ("metrics", t.metrics.dataOf entries)]

theorem toData_eq (t : Trace Float) : t.toData = t.dataOf t.metrics.percentiles.toList := by
  unfold Trace.toData dataOf
  rw [Metrics.toData_eq]

theorem ofData?_dataOf (h : t.IsFinite) (hgraph : t.graph = Graph.run ops)
    (hentries : entries.Perm t.metrics.percentiles.toList) :
    Trace.ofData? (t.dataOf entries) = some t := by
  have hunits : Value.list? CompilationUnit.ofData? (.ofList CompilationUnit.toData t.units) =
      some t.units :=
    Value.list?_ofList fun u hu => CompilationUnit.ofData?_toData (h.units u hu)
  have hloaded : Graph.ofData? 1 t.graph.toData = some t.graph := by
    have hweights := h.weights
    rw [hgraph] at hweights ⊢
    exact (Graph.tracks_run ops).ofData?_toData (by decide) hweights
  have hmetrics := Metrics.ofData?_dataOf h.metrics hentries
  unfold Trace.ofData? dataOf
  refine Value.read_record rfl (by decide) fun f hget => ?_
  simp only [List.forall_mem_cons] at hget
  simp only [Fields.optional, hget, Option.bind_eq_bind, Option.bind_some, Value.text?, hunits,
    hloaded, hmetrics]

/-- A trace whose numbers are finite, with a graph that the operations of graphs have built, is
read back from its own data, and from every text of that data, whichever order its percentiles
were written in.  What is read is the trace itself, with every list and both orders of its edges,
so no analysis can tell the two apart. -/
theorem reload (h : t.IsFinite) (hgraph : t.graph = Graph.run ops) :
    Trace.ofData? t.toData = some t ∧
    ∀ entries : List (String × Float), entries.Perm t.metrics.percentiles.toList →
      Trace.ofData? (t.dataOf entries) = some t ∧
      ∀ text : String, Json.parse? text = some (t.dataOf entries) →
        Trace.parse? text = some t := by
  refine ⟨?_, fun entries hentries => ?_⟩
  · rw [toData_eq]
    exact ofData?_dataOf h hgraph (.refl _)
  · have hread := ofData?_dataOf h hgraph hentries
    refine ⟨hread, fun text htext => ?_⟩
    unfold Trace.parse?
    rw [htext]
    exact hread

/-- One unit with an instantiation, a repeated include, and two percentiles. -/
def smallBuild : Trace Float where
  id := "nightly"
  buildSystem := "ninja"
  units := [⟨"a.cc", 8.0, 2.5, 1.5, 3.0, 1.0, ["a.h"], ["a.h", "b.h"],
    [⟨"Box<int>", 0.5, ["Shelf<int>"]⟩]⟩]
  graph := Graph.run [.addDependencyEdge "a.cc" ⟨"a.h", .transitive, 3, true, 0.25⟩,
    .addEdge "a.h" "b.h" .direct, .addEdge "a.cc" "a.h" .precompiled, .addNode "c.h"]
  metrics := ⟨8.0, 1, .ofList [("p50", 8.0), ("p99", 8.5)]⟩

theorem smallBuild_reload :
    Trace.ofData? smallBuild.toData = some smallBuild ∧
      Trace.ofData? (smallBuild.dataOf [("p99", 8.5), ("p50", 8.0)]) = some smallBuild := by
  have hfinite : smallBuild.IsFinite := by
    refine ⟨List.forall_mem_singleton.mpr ?_, by decide +kernel, ⟨by decide, by decide +kernel⟩⟩
    exact ⟨by decide, by decide, by decide, by decide, by decide, by decide +kernel⟩
  have hentries : smallBuild.metrics.percentiles.toList = [("p50", 8.0), ("p99", 8.5)] := rfl
  obtain ⟨hread, hordered⟩ := reload hfinite rfl
  refine ⟨hread, (hordered _ ?_).1⟩
  rw [hentries]
  exact .swap _ _ []

end Trace

end BuildAdvisor
