import BuildAdvisor.Scalar

/-!
Double precision numbers as scalars.

* `Double.orderKey` — the place of a double in the total order of the binary format: negative
  numbers, then minus zero, zero, positive numbers, and the undefined value at the top;
* the `Scalar` and `Exponential` instances of `Float`.
-/

set_option autoImplicit false

namespace BuildAdvisor.Double

/-- Bit patterns below the sign bit keep their place; those with it run downwards from `-1`. -/
def orderKey (x : Float) : Int :=
  let bits := x.toBits.toNat
  let sign := UInt64.size / 2
  if bits < sign then (bits : Int) else (sign : Int) - 1 - (bits : Int)

def precedes (x y : Float) : Bool :=
  decide (orderKey x ≤ orderKey y)

theorem precedes_iff (x y : Float) : precedes x y = true ↔ orderKey x ≤ orderKey y := by
  simp [precedes]

instance : Scalar Float where
  toAdd := inferInstance
  toSub := inferInstance
  toMul := inferInstance
  toDiv := inferInstance
  toNeg := inferInstance
  toNatCast := ⟨Float.ofNat⟩
  toOfScientific := inferInstance
  toLT := inferInstance
  toLE := inferInstance
  decidableLT := inferInstance
  decidableLE := inferInstance
  isNaN := Float.isNaN
  isFinite := Float.isFinite
  precedes := precedes
  precedes_total := by
    intro x y
    rw [Bool.or_eq_true, precedes_iff, precedes_iff]
    exact Int.le_total _ _
  precedes_trans := by
    intro x y z
    simp only [precedes_iff]
    exact Int.le_trans

instance : Exponential Float where
  exp := Float.exp

end BuildAdvisor.Double
