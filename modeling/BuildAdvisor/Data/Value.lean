import BuildAdvisor.Scalar.Double

/-!
Data as it stands in a text: the values that formats for structured data share.

* `Number` — a whole number, or a double;
* `Value` — the six kinds, and `unreadable` for a scalar that is well formed but stands for no
  value: a number beyond the doubles, a string with an unpaired surrogate;
* `Number.ofDouble?`, `Value.ofDouble` — a double as a value, `null` where it is not finite.
-/

set_option autoImplicit false

namespace BuildAdvisor.Data

inductive Number where
  | natural (n : Nat)
  | negative (n : Nat)
  | real (x : Float)

def Number.toDouble : Number → Float
  | .natural n => Float.ofNat n
  | .negative n => -(Float.ofNat n)
  | .real x => x

/-- A member whose key is unreadable has the key `none`. -/
inductive Value where
  | null
  | bool (b : Bool)
  | number (n : Number)
  | string (s : String)
  | unreadable
  | array (items : List Value)
  | object (members : List (Option String × Value))

namespace Value

def ofDouble (x : Float) : Value :=
  if x.isFinite then .number (.real x) else .null

def ofNat (n : Nat) : Value :=
  .number (.natural n)

def ofList {α : Type} (f : α → Value) (xs : List α) : Value :=
  .array (xs.map f)

def strings (xs : List String) : Value :=
  ofList .string xs

/-- An object from its named members. -/
def record (members : List (String × Value)) : Value :=
  .object (members.map fun (name, value) => (some name, value))

end Value

end BuildAdvisor.Data
