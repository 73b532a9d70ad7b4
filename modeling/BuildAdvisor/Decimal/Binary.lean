/-!
A double read exactly.

* `Reading` — the value a double stands for: undefined, infinite, or a sign with
  `significand * 2 ^ exponent`;
* `Reading.ofDouble` — the fields of the binary format;
* `Quotient` — a non-negative rational kept as numerator and denominator, the form in which
  printing compares and rounds.
-/

set_option autoImplicit false

namespace BuildAdvisor.Decimal

inductive Reading where
  | undefined
  | infinite (negative : Bool)
  | finite (negative : Bool) (significand : Nat) (exponent : Int)
deriving DecidableEq, Repr

/-- What a number has above its fifty-two fraction bits. -/
def Reading.hiddenBit : Nat := 0x10000000000000

/-- One sign bit, eleven exponent bits, fifty-two fraction bits; the least exponent field means
no hidden bit, the greatest one no number. -/
def Reading.ofDouble (x : Float) : Reading :=
  let bits := x.toBits.toNat
  let negative := decide (UInt64.size / 2 ≤ bits)
  let exponent : Nat := bits / hiddenBit % 2048
  let fraction := bits % hiddenBit
  if exponent = 2047 then
    if fraction = 0 then .infinite negative else .undefined
  else if exponent = 0 then .finite negative fraction (-1074)
  else .finite negative (hiddenBit + fraction) ((exponent : Int) - 1075)

structure Quotient where
  numerator : Nat
  denominator : Nat
deriving Repr

/-- `n * base ^ e`, with a negative power in the denominator. -/
def Quotient.scaled (n base : Nat) (e : Int) : Quotient :=
  match e with
  | .ofNat k => ⟨n * Nat.pow base k, 1⟩
  | .negSucc k => ⟨n, Nat.pow base (k + 1)⟩

def Quotient.mul (x y : Quotient) : Quotient :=
  ⟨x.numerator * y.numerator, x.denominator * y.denominator⟩

/-- Compares by cross multiplication. -/
def Quotient.compare (x y : Quotient) : Ordering :=
  Ord.compare (x.numerator * y.denominator) (y.numerator * x.denominator)

def Quotient.floor (x : Quotient) : Nat :=
  x.numerator / x.denominator

end BuildAdvisor.Decimal
