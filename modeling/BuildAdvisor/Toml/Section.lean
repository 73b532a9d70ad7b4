import BuildAdvisor.Data.Value

/-!
The tables of a TOML document while it is read.

* `Item` — a value, a table, or a list of tables;
* `Origin` — how a table came to be, which decides what may still be added to it;
* `Section.descend` — a change at the end of a path of tables;
* `Section.insert`, `Section.openTable`, `Section.openListItem` — the three changes.

A table is written in one place: a header may turn a table that was only mentioned in a longer
header into one of its own, and a dotted key may add only to tables made by dotted keys.
-/

set_option autoImplicit false

namespace BuildAdvisor.Toml

open Data (Value)

/-- `mentioned` in a longer header, made by a `dotted` key, or `written` in its own place. -/
inductive Origin where
  | mentioned
  | dotted
  | written
deriving DecidableEq

inductive Item where
  | value (v : Value)
  | table (origin : Origin) (entries : List (String × Item))
  | tables (items : List (List (String × Item)))

structure Section where
  origin : Origin
  entries : List (String × Item)

namespace Section

def empty : Section := ⟨.written, []⟩

def find? (s : Section) (key : String) : Option Item :=
  s.entries.lookup key

def put (s : Section) (key : String) (item : Item) : Section :=
  if s.entries.any fun (k, _) => k == key then
    { s with entries := s.entries.map fun (k, old) => (k, if k == key then item else old) }
  else { s with entries := s.entries ++ [(key, item)] }

/-- Changes the table at the end of a path; tables that are missing on the way are made.  Of a
list of tables the last one is meant.  A dotted path does not lead into written tables. -/
def descend (isDotted : Bool) (change : Section → Option Section) :
    List String → Section → Option Section
  | [], s => change s
  | key :: path, s =>
    match s.find? key with
    | none => do
      let made : Section := ⟨if isDotted then .dotted else .mentioned, []⟩
      let t ← descend isDotted change path made
      some (s.put key (.table t.origin t.entries))
    | some (.value _) => none
    | some (.tables items) => do
      let last ← items.getLast?
      let t ← descend isDotted change path ⟨.written, last⟩
      some (s.put key (.tables (items.dropLast ++ [t.entries])))
    | some (.table origin entries) =>
      if isDotted ∧ origin = .written then none
      else do
        let t ← descend isDotted change path ⟨origin, entries⟩
        some (s.put key (.table t.origin t.entries))

/-- A key alone goes into a table with a place of its own, the end of a dotted key into one made
by dotted keys. -/
def insertLast (isDotted : Bool) (key : String) (v : Value) (s : Section) : Option Section :=
  if decide (s.origin = .dotted) != isDotted then none
  else if (s.find? key).isSome then none
  else some (s.put key (.value v))

/-- Adds a value under a key that may be dotted. -/
def insert (key : List String) (v : Value) (s : Section) : Option Section := do
  let last ← key.getLast?
  let path := key.dropLast
  descend true (insertLast (!path.isEmpty) last v) path s

/-- A header in brackets. -/
def openTable (header : List String) (s : Section) : Option Section := do
  let last ← header.getLast?
  descend false
    (fun parent =>
      match parent.find? last with
      | none => some (parent.put last (.table .written []))
      | some (.table .mentioned entries) => some (parent.put last (.table .written entries))
      | _ => none)
    header.dropLast s

/-- A header in double brackets. -/
def openListItem (header : List String) (s : Section) : Option Section := do
  let last ← header.getLast?
  descend false
    (fun parent =>
      match parent.find? last with
      | none => some (parent.put last (.tables [[]]))
      | some (.tables items) => some (parent.put last (.tables (items ++ [[]])))
      | _ => none)
    header.dropLast s

end Section

mutual

def Item.toValue : Item → Value
  | .value v => v
  | .table _ entries => .object (entryValues entries)
  | .tables items => .array (tableValues items)

def entryValues : List (String × Item) → List (Option String × Value)
  | [] => []
  | (key, item) :: rest => (some key, item.toValue) :: entryValues rest

def tableValues : List (List (String × Item)) → List Value
  | [] => []
  | entries :: rest => .object (entryValues entries) :: tableValues rest

end

def Section.toValue (s : Section) : Value :=
  .object (entryValues s.entries)

end BuildAdvisor.Toml
