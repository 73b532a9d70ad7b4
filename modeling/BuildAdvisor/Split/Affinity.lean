import BuildAdvisor.Scalar

/-!
Affinity of symbols.

* `affinity` — a bell curve over the counts of a matrix, which are first divided by the greatest
  of them.
-/

set_option autoImplicit false

namespace BuildAdvisor.Split

def greatest (matrix : List (List Nat)) : Nat :=
  matrix.flatten.foldl max 0

variable {α : Type} [Scalar α] [Exponential α]

/-- The divisor of the squared value in the exponent. -/
def bandwidth : α := 0.2

def bell (x : α) : α :=
  Exponential.exp (-(x * x) / (bandwidth : α))

/-- Counts that are all zero are left undivided. -/
def affinity (matrix : List (List Nat)) : List (List α) :=
  let top := greatest matrix
  let scale : α := if top = 0 then 1.0 else (top : α)
  matrix.map fun row => row.map fun (count : Nat) => bell ((count : α) / scale)

end BuildAdvisor.Split
