import BuildAdvisor.Graph.Basic
import BuildAdvisor.Scalar

/-!
Build traces.

* `Instantiation` — one template instantiation;
* `CompilationUnit` — the times, includes and instantiations of one compiled source file;
* `Trace` — the units of a build with their include graph.
-/

set_option autoImplicit false

namespace BuildAdvisor

/-- `stack` holds the names that led to the instantiation. -/
structure Instantiation (α : Type) where
  name : String
  time : α
  stack : List String

/-- Times are in milliseconds. -/
structure CompilationUnit (α : Type) where
  path : String
  total : α
  preprocessing : α
  parsing : α
  codegen : α
  optimization : α
  directIncludes : List String
  allIncludes : List String
  instantiations : List (Instantiation α)

structure Metrics (α : Type) where
  buildTime : α
  fileCount : UInt64
  percentiles : Table α

structure Trace (α : Type) where
  id : String
  buildSystem : String
  units : List (CompilationUnit α)
  graph : Graph
  metrics : Metrics α

variable {α : Type}

def CompilationUnit.empty [Scalar α] : CompilationUnit α :=
  ⟨"", 0.0, 0.0, 0.0, 0.0, 0.0, [], [], []⟩

def Metrics.empty [Scalar α] : Metrics α :=
  ⟨0.0, 0, ∅⟩

def Trace.empty [Scalar α] : Trace α :=
  ⟨"", "", [], Graph.empty, Metrics.empty⟩

/-- The first unit with the path. -/
def Trace.findUnit? (t : Trace α) (path : String) : Option (CompilationUnit α) :=
  t.units.find? fun u => u.path == path

end BuildAdvisor
