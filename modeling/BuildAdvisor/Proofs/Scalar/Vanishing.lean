import BuildAdvisor.Proofs.Scalar.Product

/-!
Zero and undefined doubles in products, quotients and sums.

* `Vanishes` — a zero of either sign, or undefined, and so not positive
  (`not_zero_lt_of_vanishes`);
* `vanishes_mul`, `vanishes_div` — it stays so whatever it is multiplied or divided by;
* `isNaN_foldl_add` — one undefined term makes a whole sum undefined;
* `zero_mul_tenth`, `zero_mul_cast`, `zero_div_cast` — zero times a tenth, times a count and over
  a count is zero.
-/

set_option autoImplicit false

namespace BuildAdvisor.Double

open Float.Model (UnpackedFloat)

/-! ## Products and quotients -/

def Vanishing : UnpackedFloat → Prop
  | .zero _ | .notANumber => True
  | _ => False

section Vanishing

variable {u : UnpackedFloat} (h : Vanishing u)

include h

theorem vanishing_stored : Vanishing (stored u) := by
  cases u with
  | notANumber => trivial
  | zero s => rwa [stored_zero]
  | _ => cases h

theorem vanishing_mul (v : UnpackedFloat) : Vanishing (.mul .binary64 u v) := by
  cases u with
  | notANumber => trivial
  | zero s => cases v <;> trivial
  | _ => cases h

theorem vanishing_div (v : UnpackedFloat) : Vanishing (.div .binary64 u v) := by
  cases u with
  | notANumber => trivial
  | zero s => cases v <;> trivial
  | _ => cases h

end Vanishing

def Vanishes (x : Float) : Prop :=
  Vanishing x.toModel.unpack

section Vanishes

variable {x : Float}

theorem vanishes_zero : Vanishes 0.0 := trivial

theorem vanishes_of_isNaN (h : x.isNaN = true) : Vanishes x := by
  have hnan : x.toModel.unpack = .notANumber := UnpackedFloat.isNaN_iff.mp h
  rw [Vanishes, hnan]
  trivial

theorem vanishes_mul (h : Vanishes x) (y : Float) : Vanishes (x * y) :=
  vanishing_stored (vanishing_mul h y.toModel.unpack)

theorem vanishes_div (h : Vanishes x) (y : Float) : Vanishes (x / y) :=
  vanishing_stored (vanishing_div h y.toModel.unpack)

theorem not_zero_lt_of_vanishes (h : Vanishes x) : ¬ 0.0 < x := by
  rw [Vanishes] at h
  rw [lt_iff_compare, unpack_zero]
  generalize x.toModel.unpack = u at h ⊢
  cases u with
  | notANumber => exact nofun
  | zero s => exact nofun
  | _ => cases h

end Vanishes

/-! ## Sums -/

theorem isNaN_add {x y : Float} (h : x.isNaN = true ∨ y.isNaN = true) : (x + y).isNaN = true := by
  have hnan : UnpackedFloat.add .binary64 x.toModel.unpack y.toModel.unpack = .notANumber := by
    rcases h with hx | hy
    · rw [show x.toModel.unpack = .notANumber from UnpackedFloat.isNaN_iff.mp hx]
      cases y.toModel.unpack <;> rfl
    · rw [show y.toModel.unpack = .notANumber from UnpackedFloat.isNaN_iff.mp hy]
      cases x.toModel.unpack <;> rfl
  change (stored (.add .binary64 x.toModel.unpack y.toModel.unpack)).isNaN = true
  rw [hnan]
  rfl

theorem isNaN_div {x : Float} (h : x.isNaN = true) (y : Float) : (x / y).isNaN = true := by
  have hnan : UnpackedFloat.div .binary64 x.toModel.unpack y.toModel.unpack = .notANumber := by
    rw [show x.toModel.unpack = .notANumber from UnpackedFloat.isNaN_iff.mp h]
    rfl
  change (stored (.div .binary64 x.toModel.unpack y.toModel.unpack)).isNaN = true
  rw [hnan]
  rfl

theorem isNaN_foldl_add {xs : List Float} {start : Float}
    (h : start.isNaN = true ∨ ∃ x ∈ xs, x.isNaN = true) :
    (xs.foldl (· + ·) start).isNaN = true := by
  induction xs generalizing start with
  | nil => simpa using h
  | cons x rest ih =>
    rw [List.foldl_cons]
    apply ih
    rcases h with hstart | ⟨y, hy, hnan⟩
    · exact .inl (isNaN_add (.inl hstart))
    · rcases List.mem_cons.mp hy with rfl | hy
      · exact .inl (isNaN_add (.inr hnan))
      · exact .inr ⟨y, hy, hnan⟩

/-! ## Counts -/

theorem zero_mul_tenth : (0.0 : Float) * 0.1 = 0.0 := by
  decide +kernel

theorem zero_mul_cast {n : ℕ} (h : n < UInt64.size) : 0.0 * Float.ofNat n = 0.0 := by
  rcases Nat.eq_zero_or_pos n with rfl | hn
  · decide +kernel
  · have hcount := upTo_cast hn h
    have hproduct : 0.0 * Float.ofNat n = .ofModel (.pack (.mul .binary64
        (0.0 : Float).toModel.unpack (Float.ofNat n).toModel.unpack)) := rfl
    rw [hproduct]
    generalize (Float.ofNat n).toModel.unpack = u at hcount ⊢
    cases u with
    | finite s m e hm =>
      cases s with
      | positive => rfl
      | negative => cases hcount
    | _ => cases hcount

/-- However large the count is: over infinity, zero is zero too. -/
theorem zero_div_cast {n : ℕ} (hn : 0 < n) :
    0.0 / Float.ofNat n = 0.0 ∨ 0.0 / Float.ofNat n = -0.0 := by
  have hcount := atLeastOne_cast hn
  have hquotient : 0.0 / Float.ofNat n = .ofModel (.pack (.div .binary64
      (0.0 : Float).toModel.unpack (Float.ofNat n).toModel.unpack)) := rfl
  rw [hquotient]
  generalize (Float.ofNat n).toModel.unpack = u at hcount ⊢
  cases u with
  | finite s m e hm =>
    cases s with
    | positive => exact .inl rfl
    | negative => exact .inr rfl
  | infinity s =>
    cases s with
    | positive => exact .inl rfl
    | negative => exact .inr rfl
  | _ => cases hcount

end BuildAdvisor.Double
