import BuildAdvisor.Graph.Codec
import BuildAdvisor.Json.Parser
import BuildAdvisor.Trace.Basic

/-!
Build traces as data.

* one reader and one writer for each part of a trace: every field of a unit, of the metrics and
  of a trace may be missing, an instantiation needs its name and time;
* `Trace.parse?` — the trace that a text holds.
-/

set_option autoImplicit false

namespace BuildAdvisor

open Data

namespace Instantiation

def ofData? (v : Value) : Option (Instantiation Float) := do
  let f ← v.fields? ["name", "time_ms", "call_stack"]
  let name ← f.required "name" Value.text?
  let time ← f.required "time_ms" Value.double?
  let stack ← f.optional "call_stack" [] Value.texts?
  some ⟨name, time, stack⟩

def toData (i : Instantiation Float) : Value :=
  .record [("name", .string i.name), ("time_ms", .ofDouble i.time),
    ("call_stack", .strings i.stack)]

end Instantiation

namespace CompilationUnit

def fieldNames : List String :=
  ["file_path", "total_time_ms", "preprocessing_time_ms", "parsing_time_ms", "codegen_time_ms",
    "optimization_time_ms", "direct_includes", "all_includes", "template_instantiations"]

def ofData? (v : Value) : Option (CompilationUnit Float) := do
  let f ← v.fields? fieldNames
  let path ← f.optional "file_path" "" Value.text?
  let total ← f.optional "total_time_ms" 0.0 Value.double?
  let preprocessing ← f.optional "preprocessing_time_ms" 0.0 Value.double?
  let parsing ← f.optional "parsing_time_ms" 0.0 Value.double?
  let codegen ← f.optional "codegen_time_ms" 0.0 Value.double?
  let optimization ← f.optional "optimization_time_ms" 0.0 Value.double?
  let directIncludes ← f.optional "direct_includes" [] Value.texts?
  let allIncludes ← f.optional "all_includes" [] Value.texts?
  let instantiations ←
    f.optional "template_instantiations" [] (Value.list? Instantiation.ofData?)
  some ⟨path, total, preprocessing, parsing, codegen, optimization, directIncludes, allIncludes,
    instantiations⟩

def toData (u : CompilationUnit Float) : Value :=
  .record [("file_path", .string u.path), ("total_time_ms", .ofDouble u.total),
    ("preprocessing_time_ms", .ofDouble u.preprocessing),
    ("parsing_time_ms", .ofDouble u.parsing), ("codegen_time_ms", .ofDouble u.codegen),
    ("optimization_time_ms", .ofDouble u.optimization),
    ("direct_includes", .strings u.directIncludes), ("all_includes", .strings u.allIncludes),
    ("template_instantiations", .ofList Instantiation.toData u.instantiations)]

end CompilationUnit

namespace Metrics

def ofData? (v : Value) : Option (Metrics Float) := do
  let f ← v.fields? ["total_build_time_ms", "total_files", "percentiles"]
  let buildTime ← f.optional "total_build_time_ms" 0.0 Value.double?
  let fileCount ← f.optional "total_files" 0 Value.count?
  let percentiles ← f.optional "percentiles" ∅ (Value.map? Value.double?)
  some ⟨buildTime, UInt64.ofNat fileCount, percentiles⟩

def toData (m : Metrics Float) : Value :=
  .record [("total_build_time_ms", .ofDouble m.buildTime),
    ("total_files", .ofNat m.fileCount.toNat),
    ("percentiles", .record (m.percentiles.toList.map fun (name, x) => (name, .ofDouble x)))]

end Metrics

namespace Trace

def ofData? (v : Value) : Option (Trace Float) := do
  let f ← v.fields?
    ["trace_id", "build_system", "compilation_units", "dependency_graph", "metrics"]
  let id ← f.optional "trace_id" "" Value.text?
  let buildSystem ← f.optional "build_system" "" Value.text?
  let units ← f.optional "compilation_units" [] (Value.list? CompilationUnit.ofData?)
  let graph ← f.optional "dependency_graph" Graph.empty (Graph.ofData? 1)
  let metrics ← f.optional "metrics" Metrics.empty Metrics.ofData?
  some ⟨id, buildSystem, units, graph, metrics⟩

def toData (t : Trace Float) : Value :=
  .record [("trace_id", .string t.id), ("build_system", .string t.buildSystem),
    ("compilation_units", .ofList CompilationUnit.toData t.units),
    ("dependency_graph", t.graph.toData), ("metrics", t.metrics.toData)]

def parse? (text : String) : Option (Trace Float) :=
  Json.parse? text >>= ofData?

end Trace

end BuildAdvisor
