import BuildAdvisor.Data.Value
import BuildAdvisor.Table

/-!
Reading domain data out of values.

* `Value.text?`, `Value.flag?`, `Value.double?`, `Value.natural?` — scalars;
* `Value.list?`, `Value.map?`, `Value.names?` — containers;
* `Value.constant?` — a named constant;
* `Value.fields?` — the fields of a record, by name or by position.

A record ignores what it does not know, and refuses a field given twice.
-/

set_option autoImplicit false

namespace BuildAdvisor.Data

namespace Value

def text? : Value → Option String
  | .string s => some s
  | _ => none

def flag? : Value → Option Bool
  | .bool b => some b
  | _ => none

def double? : Value → Option Float
  | .number n => some n.toDouble
  | _ => none

/-- A whole number written without point and exponent, below `2 ^ bits`. -/
def natural? (bits : Nat) : Value → Option Nat
  | .number (.natural n) => if n < Nat.pow 2 bits then some n else none
  | _ => none

def count? : Value → Option Nat :=
  natural? 64

def list? {α : Type} (item? : Value → Option α) : Value → Option (List α)
  | .array items => items.mapM item?
  | _ => none

def texts? : Value → Option (List String) :=
  list? text?

def names? (v : Value) : Option Names :=
  (texts? v).map Names.ofList

/-- Of two members with one key the later one counts. -/
def map? {α : Type} (item? : Value → Option α) : Value → Option (Table α)
  | .object members =>
    members.foldlM
      (fun table (key, v) => do
        let key ← key
        let item ← item? v
        some (table.insert key item))
      ∅
  | _ => none

/-- Absent and `null` are the same. -/
def nullable? {α : Type} (item? : Value → Option α) : Value → Option (Option α)
  | .null => some none
  | v => (item? v).map some

/-- A constant is its name, or an object whose one member has that name and the value `null`. -/
def constant? {α : Type} (ofName? : String → Option α) : Value → Option α
  | .string name => ofName? name
  | .object [(some name, .null)] => ofName? name
  | _ => none

end Value

/-- The fields that a record value gives. -/
structure Fields where
  get : String → Option Value

namespace Fields

def required {α : Type} (f : Fields) (name : String) (read? : Value → Option α) : Option α :=
  f.get name >>= read?

def optional {α : Type} (f : Fields) (name : String) (fallback : α) (read? : Value → Option α) :
    Option α :=
  match f.get name with
  | none => some fallback
  | some v => read? v

end Fields

/-- An object gives each field by name, at most once; its keys must be readable. -/
def Value.namedFields? (names : List String) : Value → Option Fields
  | .object members => do
    let keyed ← members.mapM fun (key, v) => key.map (·, v)
    let known := keyed.filter (names.contains ·.1)
    if (known.map Prod.fst).Nodup then some ⟨fun name => known.lookup name⟩ else none
  | _ => none

/-- An array gives the fields in their order; the last ones may be missing. -/
def Value.fields? (names : List String) : Value → Option Fields
  | .array items =>
    if items.length ≤ names.length then
      some ⟨fun name => (names.zip items).lookup name⟩
    else none
  | v => v.namedFields? names

mutual

/-- The number of containers around the innermost value. -/
def Value.depth : Value → Nat
  | .array items => depthOfItems items + 1
  | .object members => depthOfMembers members + 1
  | _ => 0

def depthOfItems : List Value → Nat
  | [] => 0
  | v :: rest => max v.depth (depthOfItems rest)

def depthOfMembers : List (Option String × Value) → Nat
  | [] => 0
  | (_, v) :: rest => max v.depth (depthOfMembers rest)

end

mutual

/-- Every scalar and key in the value is readable. -/
def Value.readable : Value → Bool
  | .unreadable => false
  | .array items => readableItems items
  | .object members => readableMembers members
  | _ => true

def readableItems : List Value → Bool
  | [] => true
  | v :: rest => v.readable && readableItems rest

def readableMembers : List (Option String × Value) → Bool
  | [] => true
  | (key, v) :: rest => key.isSome && v.readable && readableMembers rest

end

end BuildAdvisor.Data
