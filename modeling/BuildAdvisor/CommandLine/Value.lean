import BuildAdvisor.CommandLine.Request
import BuildAdvisor.Decimal.Read

/-!
Words read as the values of options.

* `path`, `format` — a file or directory, and a choice of formats;
* `natural?` — a whole number of sixty-four bits;
* `double?` — a decimal number, where a point needs digits on one side only, or a special value.
-/

set_option autoImplicit false

namespace BuildAdvisor.CommandLine

def path (word : String) : Except Stop String :=
  if word.isEmpty then .error (.fault .badValue) else .ok word

def format (word : String) : Except Stop Format :=
  match Format.ofName? word with
  | some f => .ok f
  | none => .error (.fault .badValue)

/-! ## Numbers -/

def digitsValue? (cs : List Char) : Option Nat :=
  if !cs.isEmpty && cs.all Char.isDigit then some (Decimal.natOfDigits cs) else none

/-- Digits, perhaps after a plus sign. -/
def natural? (cs : List Char) : Option Nat := do
  let digits := match cs with
    | '+' :: rest => rest
    | cs => cs
  let n ← digitsValue? digits
  if n < UInt64.size then some n else none

/-- Infinity and the undefined value, in letters of either case. -/
def special? (cs : List Char) : Option Float :=
  let word := String.ofList (cs.map Char.toLower)
  if word = "inf" ∨ word = "infinity" then some (1.0 / 0.0)
  else if word = "nan" then some (0.0 / 0.0)
  else none

def unsignedLiteral? (cs : List Char) : Option Decimal.Literal := do
  let (whole, rest) := cs.span Char.isDigit
  let (fraction, rest) := match rest with
    | '.' :: rest => rest.span Char.isDigit
    | rest => ([], rest)
  if whole.isEmpty && fraction.isEmpty then none
  else
    match ← Decimal.exponent? rest with
    | (exponent, []) => some ⟨whole, some fraction, exponent⟩
    | _ => none

def double? (cs : List Char) : Option Float :=
  let (negative, unsigned) := Decimal.sign cs
  match special? unsigned with
  | some x => some (Decimal.signed negative x)
  | none => (unsignedLiteral? unsigned).map fun l => l.toDouble negative

def number {β : Type} (read? : List Char → Option β) (word : String) : Except Stop β :=
  match read? word.toList with
  | some x => .ok x
  | none => .error (.fault .badNumber)

end BuildAdvisor.CommandLine
