import BuildAdvisor.Scalar

/-!
Exact rationals as scalars: the reading under which no step of an analysis rounds.
-/

set_option autoImplicit false

namespace BuildAdvisor.Rational

instance : Scalar Rat where
  toAdd := inferInstance
  toSub := inferInstance
  toMul := inferInstance
  toDiv := inferInstance
  toNeg := inferInstance
  toNatCast := inferInstance
  toOfScientific := inferInstance
  toLT := inferInstance
  toLE := inferInstance
  decidableLT := inferInstance
  decidableLE := inferInstance
  isNaN := fun _ => false
  isFinite := fun _ => true
  precedes := fun x y => decide (x ≤ y)
  precedes_total := by
    intro x y
    rw [Bool.or_eq_true, decide_eq_true_iff, decide_eq_true_iff]
    exact Rat.le_total
  precedes_trans := by
    intro x y z hxy hyz
    exact decide_eq_true (Rat.le_trans (of_decide_eq_true hxy) (of_decide_eq_true hyz))

end BuildAdvisor.Rational
