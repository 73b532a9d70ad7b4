import BuildAdvisor.Graph.Record
import BuildAdvisor.Data.Decode

/-!
Include graphs as data.

* `EdgeKind`, `Edge` — named constants and records with defaults;
* `Graph.ofData?`, `Graph.toData` — by way of the flat form.

An edge in a graph's list is one object with the source beside the fields of the edge.  Such an
object is read as a whole before its fields are, so all of it must be readable, and its nesting
is limited.
-/

set_option autoImplicit false

namespace BuildAdvisor

open Data

namespace EdgeKind

def name : EdgeKind → String
  | direct => "DIRECT_INCLUDE"
  | transitive => "TRANSITIVE"
  | precompiled => "PCH_REFERENCE"

def all : List EdgeKind := [direct, transitive, precompiled]

def ofName? (s : String) : Option EdgeKind :=
  all.find? fun k => k.name == s

theorem ofName?_name (k : EdgeKind) : ofName? k.name = some k := by
  cases k <;> rfl

def ofData? : Value → Option EdgeKind :=
  Value.constant? ofName?

def toData (k : EdgeKind) : Value :=
  .string k.name

end EdgeKind

namespace Edge

def fieldNames : List String :=
  ["target", "type", "line_number", "is_system_header", "weight"]

def ofFields? (f : Fields) : Option Edge := do
  let target ← f.required "target" Value.text?
  let kind ← f.optional "type" .direct EdgeKind.ofData?
  let line ← f.optional "line_number" 0 (Value.natural? 32)
  let flagged ← f.optional "is_system_header" false Value.flag?
  let weight ← f.optional "weight" 1.0 Value.double?
  some ⟨target, kind, UInt32.ofNat line, flagged, weight⟩

def ofData? (v : Value) : Option Edge :=
  v.fields? fieldNames >>= ofFields?

def members (e : Edge) : List (String × Value) :=
  [("target", .string e.target), ("type", e.kind.toData),
    ("line_number", .ofNat e.line.toNat), ("is_system_header", .bool e.flagged),
    ("weight", .ofDouble e.weight)]

def toData (e : Edge) : Value :=
  .record e.members

end Edge

namespace Graph

/-- The most containers that may lie around a value of an edge in a list of edges. -/
def nestingLimit : Nat := 127

/-- `outer` counts the containers around the list's items.  An empty object also serves as the
value of a kind that is written as a one-member object. -/
def linkedOfData? (outer : Nat) (v : Value) : Option (String × Edge) := do
  guard (v.readable ∧ outer + v.depth ≤ nestingLimit)
  let f ← v.namedFields? ("source" :: Edge.fieldNames)
  let source ← f.required "source" Value.text?
  let relaxed : Fields := ⟨fun name =>
    match name, f.get name with
    | "type", some (.object [(key, .object [])]) => some (.object [(key, .null)])
    | _, v => v⟩
  let e ← Edge.ofFields? relaxed
  some (source, e)

def linkedToData (source : String) (e : Edge) : Value :=
  .record (("source", .string source) :: e.members)

def Record.ofData? (outer : Nat) (v : Value) : Option Record := do
  let f ← v.fields? ["nodes", "edges"]
  let nodes ← f.optional "nodes" [] Value.texts?
  let edges ← f.optional "edges" [] (Value.list? (linkedOfData? (outer + 2)))
  some ⟨nodes, edges⟩

/-- `outer` counts the containers around the graph. -/
def ofData? (outer : Nat) (v : Value) : Option Graph :=
  (Record.ofData? outer v).map Record.toGraph

def toData (g : Graph) : Value :=
  .record [("nodes", .strings g.nodes),
    ("edges", .ofList (fun (source, e) => linkedToData source e) g.linked)]

end Graph

end BuildAdvisor
