import BuildAdvisor.Data.Decode
import BuildAdvisor.Symbols.Inspector

/-!
Symbols from a table.

* `StaticTable` — declared symbols by header, used symbols by file and header;
* `StaticTable.declare`, `StaticTable.reference` — additions to it;
* `StaticTable.inspector` — its answers: a header without an entry is a missing file, a symbol
  counts as used only if it is declared.
-/

set_option autoImplicit false

namespace BuildAdvisor.Symbols

structure StaticTable where
  declarations : Table Names
  references : Table (Table Names)

namespace StaticTable

def empty : StaticTable := ⟨∅, ∅⟩

def extend (names : Names) (symbols : List String) : Names :=
  symbols.foldl Std.ExtTreeSet.insert names

/-- Adds to the entry of a name, which need not exist. -/
def extendEntry (table : Table Names) (name : String) (symbols : List String) : Table Names :=
  table.alter name fun entry => some (extend (entry.getD ∅) symbols)

def declare (t : StaticTable) (header : String) (symbols : List String) : StaticTable :=
  { t with declarations := extendEntry t.declarations header symbols }

def reference (t : StaticTable) (dependent header : String) (symbols : List String) :
    StaticTable :=
  let references := t.references.alter dependent fun byHeader =>
    some (extendEntry (byHeader.getD ∅) header symbols)
  { t with references }

def declared (t : StaticTable) (header : String) : Except AnalysisError Names :=
  match t.declarations[header]? with
  | some names => .ok names
  | none => .error (.fileNotFound header)

def used (t : StaticTable) (dependent header : String) : Except AnalysisError Names :=
  (t.declared header).map fun names =>
    ((t.references.getD dependent ∅).getD header ∅).filter names.contains

def usedAmong (t : StaticTable) (dependent header : String) (known : Names) :
    Except AnalysisError Names :=
  (t.used dependent header).map fun names => names.filter known.contains

def inspector (t : StaticTable) : Inspector :=
  ⟨t.declared, t.used, t.usedAmong⟩

/-! ## JSON -/

open Data

def ofData? (v : Value) : Option StaticTable := do
  let f ← v.fields? ["declarations", "references"]
  let declarations ← f.optional "declarations" ∅ (Value.map? Value.names?)
  let references ← f.optional "references" ∅ (Value.map? (Value.map? Value.names?))
  some ⟨declarations, references⟩

def namesToData (table : Table Names) : Value :=
  .record (table.toList.map fun (name, symbols) => (name, .strings symbols.toList))

def toData (t : StaticTable) : Value :=
  .record [("declarations", namesToData t.declarations),
    ("references", .record (t.references.toList.map fun (name, byHeader) =>
      (name, namesToData byHeader)))]

end StaticTable

end BuildAdvisor.Symbols
