/-!
Decimal numbers read as doubles, rounded to nearest.

* `toDouble` — the double of `digits * 10 ^ exponent`, infinite where none is near enough;
* `Literal` — an unsigned decimal literal: whole part, fraction, power of ten;
* `Literal.scan?` — the literal at the head of a text, under the rules of a grammar record.
-/

set_option autoImplicit false

namespace BuildAdvisor.Decimal

def signed (negative : Bool) (x : Float) : Float :=
  if negative then -x else x

/-- Beyond three hundred and ten digits before the point every decimal is infinite, and below
as many zeros after it every one is zero; the guard keeps the powers small. -/
def toDouble (negative : Bool) (digits : Nat) (exponent : Int) : Float :=
  let count : Int := (Nat.toDigits 10 digits).length
  signed negative <|
    if digits = 0 ∨ count + exponent < -400 then 0.0
    else if 400 < count + exponent then 1.0 / 0.0
    else match exponent with
      | .ofNat k => Float.ofScientific digits false k
      | .negSucc k => Float.ofScientific digits true (k + 1)

/-- Value of a run of decimal digits. -/
def natOfDigits (cs : List Char) : Nat :=
  cs.foldl (fun n c => n * 10 + (c.toNat - '0'.toNat)) 0

/-- An unsigned decimal literal, in the characters it was written with. -/
structure Literal where
  whole : List Char
  fraction : Option (List Char)
  exponent : Option (Bool × List Char)
deriving Repr

/-- Neither a fraction nor a power of ten is written. -/
def Literal.isWhole (l : Literal) : Bool :=
  l.fraction.isNone && l.exponent.isNone

def Literal.toDouble (l : Literal) (negative : Bool) : Float :=
  let fraction := l.fraction.getD []
  let power : Int := match l.exponent with
    | none => 0
    | some (true, ds) => -(natOfDigits ds : Int)
    | some (false, ds) => natOfDigits ds
  Decimal.toDouble negative (natOfDigits (l.whole ++ fraction)) (power - fraction.length)

/-- Whether a minus sign stands first, and what follows a sign of either kind. -/
def sign : List Char → Bool × List Char
  | '-' :: rest => (true, rest)
  | '+' :: rest => (false, rest)
  | cs => (false, cs)

/-- The power of ten at the head of a text, if one is there: `e`, a sign, digits. -/
def exponent? : List Char → Option (Option (Bool × List Char) × List Char)
  | e :: rest =>
    if e = 'e' ∨ e = 'E' then
      let (negative, rest) := sign rest
      match rest.span Char.isDigit with
      | ([], _) => none
      | (ds, r) => some (some (negative, ds), r)
    else some (none, e :: rest)
  | [] => some (none, [])

/-- Digits, then perhaps a point with digits, then perhaps a power of ten; what follows is left.
`none` where a point or an `e` is not followed by a digit, or no digit comes first. -/
def Literal.scan? (cs : List Char) : Option (Literal × List Char) :=
  match cs.span Char.isDigit with
  | ([], _) => none
  | (whole, '.' :: rest) =>
    match rest.span Char.isDigit with
    | ([], _) => none
    | (fraction, rest) => do
      let (exponent, rest) ← exponent? rest
      some (⟨whole, some fraction, exponent⟩, rest)
  | (whole, rest) => do
    let (exponent, rest) ← exponent? rest
    some (⟨whole, none, exponent⟩, rest)

end BuildAdvisor.Decimal
