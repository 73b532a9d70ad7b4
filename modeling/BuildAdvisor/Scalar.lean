/-!
The arithmetic that the analyses are written over.

* `Scalar` — the operations and comparisons an analysis uses, with a total order for ranking;
* `Exponential` — the exponential function, apart, because exact rationals have none;
* `Numeral` — the two ways in which a number appears in a report;
* `Scalar.sum`, `Scalar.clamp`, `Scalar.descending` — what is derived from them.

Every analysis takes its number type as a parameter.  The program runs at `Float`; a statement
about exact arithmetic is the same analysis at `Rat`.
-/

set_option autoImplicit false

namespace BuildAdvisor

/-- A number type.  `precedes` ranks all values, those included that `<` leaves incomparable. -/
class Scalar (α : Type) extends Add α, Sub α, Mul α, Div α, Neg α, NatCast α, OfScientific α,
    LT α, LE α where
  decidableLT : DecidableLT α
  decidableLE : DecidableLE α
  isNaN : α → Bool
  isFinite : α → Bool
  precedes : α → α → Bool
  precedes_total : ∀ a b, (precedes a b || precedes b a) = true
  precedes_trans : ∀ a b c, precedes a b = true → precedes b c = true → precedes a c = true

attribute [reducible, instance] Scalar.decidableLT Scalar.decidableLE

class Exponential (α : Type) where
  exp : α → α

/-- How a report writes a number: in full with the fewest digits, or with fixed places. -/
class Numeral (α : Type) where
  plain : α → String
  places : Nat → α → String

namespace Scalar

variable {α : Type} [Scalar α]

/-- Terms are added from left to right, from minus zero: the one start that leaves every first
term as it is, a zero with its sign included. -/
def sum (xs : List α) : α :=
  xs.foldl (· + ·) (-0.0)

@[simp] theorem sum_nil : sum ([] : List α) = -0.0 := rfl

/-- The nearest value between two bounds. -/
def clamp (low high x : α) : α :=
  if x < low then low else if high < x then high else x

def clampUnit (x : α) : α :=
  clamp 0.0 1.0 x

/-- The place of `x` before `y` when the greatest come first. -/
def descending (x y : α) : Bool :=
  precedes y x

end Scalar

end BuildAdvisor
