import BuildAdvisor.Json.Token

/-!
JSON values from tokens.

* `Frame` — a container that is still open, with its parts so far, last one first;
* `Expect` — what may come next;
* `State.step?` — one token;
* `parse?` — the value of a text.

Open containers are kept in a list, so nesting costs no recursion and has no limit.
-/

set_option autoImplicit false

namespace BuildAdvisor.Json

open Data

inductive Frame where
  | array (items : List Value)
  | object (members : List (Option String × Value)) (key : Option String)

/-- `firstItem` and `firstKey` also allow the container to close. -/
inductive Expect where
  | value
  | firstItem
  | firstKey (members : List (Option String × Value))
  | key (members : List (Option String × Value))
  | colon
  | after (v : Value)

structure State where
  stack : List Frame
  expect : Expect

def State.start : State := ⟨[], .value⟩

/-- A value in its place begins: scalars are complete at once. -/
def State.beginValue? (stack : List Frame) : Token → Option State
  | .null => some ⟨stack, .after .null⟩
  | .bool b => some ⟨stack, .after (.bool b)⟩
  | .number (some n) => some ⟨stack, .after (.number n)⟩
  | .string (some s) => some ⟨stack, .after (.string s)⟩
  | .number none | .string none => some ⟨stack, .after .unreadable⟩
  | .openArray => some ⟨.array [] :: stack, .firstItem⟩
  | .openObject => some ⟨stack, .firstKey []⟩
  | _ => none

def State.beginKey? (stack : List Frame) (members : List (Option String × Value)) :
    Token → Option State
  | .string s => some ⟨.object members s :: stack, .colon⟩
  | _ => none

/-- A value is complete: the innermost container takes it and goes on or closes. -/
def State.afterValue? (v : Value) : List Frame → Token → Option State
  | .array items :: stack, .comma => some ⟨.array (v :: items) :: stack, .value⟩
  | .array items :: stack, .closeArray =>
    some ⟨stack, .after (.array (v :: items).reverse)⟩
  | .object members key :: stack, .comma => some ⟨stack, .key ((key, v) :: members)⟩
  | .object members key :: stack, .closeObject =>
    some ⟨stack, .after (.object ((key, v) :: members).reverse)⟩
  | _, _ => none

def State.step? (s : State) (t : Token) : Option State :=
  match s.expect, t with
  | .value, t => State.beginValue? s.stack t
  | .firstItem, .closeArray =>
    match s.stack with
    | .array _ :: stack => some ⟨stack, .after (.array [])⟩
    | _ => none
  | .firstItem, t => State.beginValue? s.stack t
  | .firstKey _, .closeObject => some ⟨s.stack, .after (.object [])⟩
  | .firstKey members, t => State.beginKey? s.stack members t
  | .key members, t => State.beginKey? s.stack members t
  | .colon, .colon => some ⟨s.stack, .value⟩
  | .colon, _ => none
  | .after v, t => State.afterValue? v s.stack t

/-- The value that all tokens together form. -/
def ofTokens? (ts : List Token) : Option Value :=
  match ts.foldlM State.step? State.start with
  | some ⟨[], .after v⟩ => some v
  | _ => none

def parse? (text : String) : Option Value :=
  tokens? text.toList >>= ofTokens?

end BuildAdvisor.Json
