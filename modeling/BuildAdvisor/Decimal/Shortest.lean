import BuildAdvisor.Decimal.Binary

/-!
The shortest decimal that reads back as a given double.

* `Digits` — a decimal as an integer times a power of ten;
* `Neighbourhood` — the reals that round to a double, with the double itself;
* `shortest` — the decimal of fewest digits among them, the nearest one if several have that
  many.
-/

set_option autoImplicit false

namespace BuildAdvisor.Decimal

/-- Which of two equally near candidates is taken. -/
inductive Tie where
  | toEven
  | upward
deriving DecidableEq, Repr

/-- `digits * 10 ^ exponent`. -/
structure Digits where
  digits : Nat
  exponent : Int
deriving DecidableEq, Repr

/-- The number of decimal digits, one for zero. -/
def digitCount (n : Nat) : Nat :=
  (Nat.toDigits 10 n).length

/-- Where the leading digit of the decimal stands. -/
def Digits.leading (d : Digits) : Int :=
  d.exponent + digitCount d.digits - 1

/-- Trailing zeros move to the exponent; `fuel` bounds their number. -/
def Digits.strip : Nat → Digits → Digits
  | 0, d => d
  | fuel + 1, d =>
    if d.digits % 10 = 0 then Digits.strip fuel ⟨d.digits / 10, d.exponent + 1⟩ else d

/-- The value and the ends of the interval that rounds to it.  The ends belong to the interval
exactly when the significand is even, because halves go to the even neighbour. -/
structure Neighbourhood where
  below : Quotient
  value : Quotient
  above : Quotient
  closed : Bool

/-- Half the gap to either neighbour; below a power of two the gap is half as wide, except at
the bottom of the range. -/
def Neighbourhood.of (significand : Nat) (exponent : Int) : Neighbourhood where
  below :=
    if significand = Reading.hiddenBit ∧ -1074 < exponent then
      Quotient.scaled (4 * significand - 1) 2 (exponent - 2)
    else Quotient.scaled (4 * significand - 2) 2 (exponent - 2)
  value := Quotient.scaled (4 * significand) 2 (exponent - 2)
  above := Quotient.scaled (4 * significand + 2) 2 (exponent - 2)
  closed := significand % 2 == 0

def Neighbourhood.contains (n : Neighbourhood) (x : Quotient) : Bool :=
  if n.closed then n.below.compare x != .gt && x.compare n.above != .gt
  else n.below.compare x == .lt && x.compare n.above == .lt

/-- The power of ten of the leading digit of a positive value. -/
def leadingPower (x : Quotient) : Int :=
  if x.denominator ≤ x.numerator then (digitCount x.floor : Int) - 1
  else
    let count := digitCount (x.denominator / x.numerator)
    if x.denominator ≤ x.numerator * Nat.pow 10 (count - 1) then 1 - (count : Int) else -(count : Int)

/-- The two neighbours of the value among the multiples of `10 ^ place`: those that lie in the
neighbourhood, the nearer one first. -/
def Neighbourhood.onGrid (n : Neighbourhood) (tie : Tie) (place : Int) : Option Digits :=
  let lower := (n.value.mul (Quotient.scaled 1 10 (-place))).floor
  let point (d : Nat) := Quotient.scaled d 10 place
  let inside (d : Nat) := n.contains (point d)
  match inside lower, inside (lower + 1) with
  | false, false => none
  | true, false => some ⟨lower, place⟩
  | false, true => some ⟨lower + 1, place⟩
  | true, true =>
    let twice := n.value.mul ⟨2, 1⟩
    let middle := Quotient.scaled (2 * lower + 1) 10 place
    let down : Bool := match twice.compare middle with
      | .lt => true
      | .gt => false
      | .eq => tie == .toEven && lower % 2 == 0
    some ⟨if down then lower else lower + 1, place⟩

/-- Seventeen digits always suffice, so the last grid is the fallback. -/
def shortest (tie : Tie) (significand : Nat) (exponent : Int) : Digits :=
  if significand = 0 then ⟨0, 0⟩
  else
    let n := Neighbourhood.of significand exponent
    let lead := leadingPower n.value
    let found := (List.range 17).findSome? fun (k : Nat) => n.onGrid tie (lead - k)
    Digits.strip 400 (found.getD ⟨(n.value.mul (Quotient.scaled 1 10 (16 - lead))).floor, lead - 16⟩)

end BuildAdvisor.Decimal
