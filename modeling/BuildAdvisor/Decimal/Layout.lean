import BuildAdvisor.Decimal.Shortest
import BuildAdvisor.Scalar.Double

/-!
How a decimal is laid out as text.

* `Layout` — the decisions a format makes;
* `Layout.render` — the text of a double under a layout;
* `places` — a fixed number of decimal places, a half going to the even neighbour;
* the `Numeral` instance of `Float`: reports write the shortest digits without a power of ten.
-/

set_option autoImplicit false

namespace BuildAdvisor.Decimal

/-- The decisions of a number format.  `positional` holds the places of a leading digit for
which no power of ten is written. -/
structure Layout where
  positional : Int → Bool
  wholeSuffix : String
  positiveExponent : String
  tie : Tie

def digitsText (n : Nat) : List Char :=
  Nat.toDigits 10 n

/-- A whole number with its point moved `count` places to the left. -/
def withPoint (n count : Nat) : List Char :=
  let text := digitsText n
  let padded := List.replicate (count + 1 - text.length) '0' ++ text
  let split := padded.length - count
  padded.take split ++ (if count = 0 then [] else '.' :: padded.drop split)

def Layout.magnitude (l : Layout) (d : Digits) : List Char :=
  if l.positional d.leading then
    match d.exponent with
    | .ofNat k => digitsText d.digits ++ List.replicate k '0' ++ l.wholeSuffix.toList
    | .negSucc k => withPoint d.digits (k + 1)
  else
    let mantissa := withPoint d.digits (digitCount d.digits - 1)
    let sign := if d.leading < 0 then ['-'] else l.positiveExponent.toList
    mantissa ++ ['e'] ++ sign ++ digitsText d.leading.natAbs

def signText (negative : Bool) : List Char :=
  if negative then ['-'] else []

/-- Texts of the values that have no digits. -/
def undefinedText : String := "NaN"

def infinityText : String := "inf"

def Layout.render (l : Layout) (x : Float) : String :=
  match Reading.ofDouble x with
  | .undefined => undefinedText
  | .infinite negative => String.ofList (signText negative ++ infinityText.toList)
  | .finite negative significand exponent =>
    -- the leading digit of zero stands at the units
    String.ofList (signText negative ++ l.magnitude (shortest l.tie significand exponent))

/-- Rounds to the nearest integer, a half to the even one. -/
def Quotient.round (x : Quotient) : Nat :=
  let low := x.floor
  let rest := 2 * (x.numerator % x.denominator)
  if rest < x.denominator ∨ (rest = x.denominator ∧ low % 2 = 0) then low else low + 1

/-- The exact value rounded to `count` decimal places. -/
def places (count : Nat) (x : Float) : String :=
  match Reading.ofDouble x with
  | .undefined => undefinedText
  | .infinite negative => String.ofList (signText negative ++ infinityText.toList)
  | .finite negative significand exponent =>
    let scaled := Quotient.scaled (significand * Nat.pow 10 count) 2 exponent
    String.ofList (signText negative ++ withPoint scaled.round count)

/-- Reports write every digit and no point after a whole number. -/
def Layout.report : Layout := ⟨fun _ => true, "", "", .upward⟩

/-- Dumps of a value keep `.0` after a whole number and leave positional writing outside
`[1e-4, 1e16)`. -/
def Layout.dump : Layout := ⟨fun p => decide (-4 ≤ p ∧ p ≤ 15), ".0", "", .upward⟩

instance : Numeral Float where
  plain := Layout.report.render
  places := places

end BuildAdvisor.Decimal
