import BuildAdvisor.Decimal.Layout
import BuildAdvisor.Data.Value

/-!
JSON texts of values.

* `Json.number` — the number layout: positional for a leading digit from `1e-5` to `1e15`;
* `compact` — no blanks;
* `pretty` — one member or item a line, two blanks a level, empty containers closed up.
-/

set_option autoImplicit false

namespace BuildAdvisor.Json

open Data

def number : Decimal.Layout := ⟨fun p => decide (-5 ≤ p ∧ p ≤ 15), ".0", "+", .toEven⟩

def numberText : Number → String
  | .natural n => String.ofList (Nat.toDigits 10 n)
  | .negative n => String.ofList ('-' :: Nat.toDigits 10 n)
  | .real x => number.render x

def hexDigit (n : Nat) : Char :=
  (Nat.toDigits 16 (n % 16)).headD '0'

/-- Quotes, backslashes and control characters are escaped, nothing else. -/
def escape (c : Char) : List Char :=
  match c with
  | '"' => ['\\', '"']
  | '\\' => ['\\', '\\']
  | '\x08' => ['\\', 'b']
  | '\x0c' => ['\\', 'f']
  | '\n' => ['\\', 'n']
  | '\r' => ['\\', 'r']
  | '\t' => ['\\', 't']
  | c =>
    if c.toNat < 0x20 then ['\\', 'u', '0', '0', hexDigit (c.toNat / 16), hexDigit c.toNat]
    else [c]

def quote (s : String) : String :=
  String.ofList ('"' :: s.toList.flatMap escape ++ ['"'])

/-- How the parts of a container are set apart: what follows the opening bracket, a comma and a
colon, and what precedes the closing bracket, at a nesting depth. -/
structure Spacing where
  inner : Nat → String
  outer : Nat → String
  colon : String

def Spacing.compact : Spacing := ⟨fun _ => "", fun _ => "", ":"⟩

def Spacing.pretty : Spacing where
  inner := fun depth => String.ofList ('\n' :: List.replicate (2 * (depth + 1)) ' ')
  outer := fun depth => String.ofList ('\n' :: List.replicate (2 * depth) ' ')
  colon := ": "

/-- Parts between brackets; a container without parts is closed up. -/
def Spacing.enclose (s : Spacing) (depth : Nat) (left right : String) (parts : List String) :
    String :=
  if parts.isEmpty then left ++ right
  else left ++ s.inner depth ++ ("," ++ s.inner depth).intercalate parts ++ s.outer depth ++ right

mutual

def printValue (s : Spacing) (depth : Nat) : Value → String
  | .null => "null"
  | .bool true => "true"
  | .bool false => "false"
  | .number n => numberText n
  | .string t => quote t
  | .unreadable => "null"
  | .array items => s.enclose depth "[" "]" (printItems s (depth + 1) items)
  | .object members => s.enclose depth "\x7b" "\x7d" (printMembers s (depth + 1) members)

def printItems (s : Spacing) (depth : Nat) : List Value → List String
  | [] => []
  | v :: rest => printValue s depth v :: printItems s depth rest

def printMembers (s : Spacing) (depth : Nat) : List (Option String × Value) → List String
  | [] => []
  | (key, v) :: rest =>
    (quote (key.getD "") ++ s.colon ++ printValue s depth v) :: printMembers s depth rest

end

def compact (v : Value) : String :=
  printValue Spacing.compact 0 v

def pretty (v : Value) : String :=
  printValue Spacing.pretty 0 v

end BuildAdvisor.Json
