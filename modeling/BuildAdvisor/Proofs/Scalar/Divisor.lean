import BuildAdvisor.Proofs.Scalar.Storing

/-!
Numbers to divide by.

* `Scalar.isZero` — zero of either sign;
* `Scalar.Counting` — what is known of counts as numbers: only the count of nothing is zero, and
  zero is not above one;
* `Double.grid` — the exponent to which a number is rounded;
* `Double.AtLeastOne` — doubles of magnitude one and more, in normal form; rounding, storing and
  the product with one do not lead out of them;
* `Double.unpack_cast` — a count becomes a double by such steps, so that every positive count is
  among them;
* the instance for doubles.
-/

set_option autoImplicit false

namespace BuildAdvisor

namespace Scalar

variable {α : Type} [Scalar α]

def isZero (x : α) : Bool :=
  decide (x ≤ 0.0) && decide (0.0 ≤ x)

class Counting (α : Type) [Scalar α] : Prop where
  cast_not_zero : ∀ {n : Nat}, 0 < n → isZero (n : α) = false
  one_not_zero : isZero (1.0 : α) = false
  thousand_not_zero : isZero (1000.0 : α) = false
  fifth_not_zero : isZero (0.2 : α) = false
  zero_le_one : (0.0 : α) ≤ 1.0

end Scalar

namespace Double

open Float.Model (Format UnpackedFloat totalExponent)

/-! ## Magnitude one and more -/

def AtLeastOne : UnpackedFloat → Prop
  | .infinity _ => True
  | .finite _ m e _ => m.log2 = 52 ∧ -52 ≤ e
  | _ => False

theorem log2_div_two_pow (m k : ℕ) : (m / 2 ^ k).log2 = m.log2 - k := by
  rw [Nat.log2_eq_log_two, Nat.log2_eq_log_two, Nat.log_div_base_pow]

theorem log2_shiftLeft {m : ℕ} (hm : m ≠ 0) (k : ℕ) : (m <<< k).log2 = m.log2 + k := by
  induction k with
  | zero => rfl
  | succ k ih =>
    have hne : m <<< k ≠ 0 := by
      rw [Nat.shiftLeft_eq]
      exact Nat.mul_ne_zero hm (Nat.two_pow_pos k).ne'
    rw [Nat.log2_eq_log_two] at ih ⊢
    rw [Nat.shiftLeft_succ, Nat.mul_comm, Nat.log_mul_base Nat.one_lt_two hne, ih]
    rfl

theorem mantissa_shiftRight (x : UnpackedFloat.ExtendedMantissa) (k : ℕ) :
    (x >>> k).mantissa = x.mantissa / 2 ^ k := by
  induction k with
  | zero => exact (Nat.div_one _).symm
  | succ k ih =>
    change (x >>> k).mantissa / 2 = _
    rw [ih, Nat.div_div_eq_div_mul, Nat.pow_succ]

theorem mantissa_le_roundedMantissa (x : UnpackedFloat.ExtendedMantissa) :
    x.mantissa ≤ x.roundedMantissa := by
  obtain ⟨m, r, s⟩ := x
  cases r <;> cases s <;>
    simp [UnpackedFloat.ExtendedMantissa.roundedMantissa,
      UnpackedFloat.ExtendedMantissa.accuracy, UnpackedFloat.Accuracy.roundToNearestEven]

/-- The exponent of the doubles around `m * 2 ^ e`: their mantissa has 53 bits, or fewer at the
lowest exponent. -/
def grid (m : ℕ) (e : ℤ) : ℤ :=
  max (m.log2 + e - 52) (-1074)

theorem targetExponent_eq (m : ℕ) (e : ℤ) :
    Format.binary64.targetExponent (totalExponent m e) = grid m e := by
  simp only [Format.targetExponent, totalExponent, Format.mantissaBits, Format.minExponent, grid]
  norm_num
  omega

/-- A long mantissa is cut to the length of the format. -/
theorem shiftToTargetExponent_normal {m : ℕ} {e : ℤ} (hm : 52 ≤ m.log2) (he : 0 ≤ e + m.log2) :
    (UnpackedFloat.shiftToTargetExponent .binary64 m e .exact).1.mantissa.log2 = 52 ∧
      -52 ≤ (UnpackedFloat.shiftToTargetExponent .binary64 m e .exact).2 := by
  simp only [UnpackedFloat.shiftToTargetExponent, UnpackedFloat.shiftToExponent,
    targetExponent_eq, grid, mantissa_shiftRight,
    UnpackedFloat.ExtendedMantissa.ofMantissaAndAccuracy, log2_div_two_pow]
  omega

theorem atLeastOne_roundWithAccuracy (s : UnpackedFloat.Sign) {m : ℕ} {e : ℤ} (hm : 52 ≤ m.log2)
    (he : 0 ≤ e + m.log2) :
    AtLeastOne (.roundWithAccuracy .binary64 s m e .exact) := by
  obtain ⟨hlog, hexp⟩ := shiftToTargetExponent_normal hm he
  simp only [UnpackedFloat.roundWithAccuracy]
  generalize UnpackedFloat.shiftToTargetExponent .binary64 m e .exact = first at hlog hexp ⊢
  -- Rounding up may make the mantissa one longer, which the second shift takes back.
  have hround : 52 ≤ first.1.roundedMantissa.log2 := by
    have hle := mantissa_le_roundedMantissa first.1
    rw [Nat.log2_eq_log_two] at hlog ⊢
    exact hlog ▸ Nat.log_mono_right hle
  have hone : 0 ≤ first.2 + first.1.roundedMantissa.log2 := by omega
  obtain ⟨hlog', hexp'⟩ := shiftToTargetExponent_normal hround hone
  split
  next hz =>
    rw [hz] at hlog'
    exact absurd hlog' (by decide)
  next => exact ⟨hlog', hexp'⟩

/-! ## Counts -/

theorem atLeastOne_stored {u : UnpackedFloat} (h : AtLeastOne u) : AtLeastOne (stored u) := by
  cases u with
  | notANumber => cases h
  | zero s => cases h
  | infinity s =>
    rw [stored_infinity]
    trivial
  | finite s m e hm =>
    obtain ⟨hlow, hhigh⟩ := (Nat.log2_eq_iff hm.ne').mp h.1
    rcases lt_or_ge 971 e with hlarge | hsmall
    · rw [stored_large s hm hlarge]
      trivial
    · have hexponent : -1074 ≤ e := le_trans (by decide) h.2
      rwa [stored_normal s hm hlow hhigh ⟨hexponent, hsmall⟩]

/-- In normal form. -/
def one : UnpackedFloat :=
  .finite .positive 4503599627370496 (-52) (by decide)

theorem unpack_one : (Float.ofBits 4607182418800017408).toModel.unpack = one := by
  rfl

/-- A small count is read from a machine word, and a large one from its decimal digits. -/
theorem unpack_cast (n : ℕ) : (Float.ofNat n).toModel.unpack =
    if n < 2 ^ 53 then stored (.mul .binary64 (stored (.ofNat .binary64 n)) one)
    else stored (.ofScientific .binary64 n 0) := by
  change (Float.ofScientific n false 0).toModel.unpack = _
  simp only [Float.ofScientific, Nat.zero_le, and_true]
  split
  next h =>
    have hnat : n.toUInt64.toNat = n := by
      refine Nat.mod_eq_of_lt ?_
      have h53 : (2 ^ 53 : ℕ) ≤ UInt64.size := by decide
      exact h.trans_le h53
    have hword : n.toUInt64.toFloat.toModel.unpack = stored (.ofNat .binary64 n) := by
      change stored (.ofNat .binary64 n.toUInt64.toNat) = _
      rw [hnat]
    change stored (.mul .binary64 n.toUInt64.toFloat.toModel.unpack
      (Float.ofBits 4607182418800017408).toModel.unpack) = _
    rw [hword, unpack_one]
  next => rfl

/-- All these steps are roundings of a mantissa that is long enough. -/
theorem ofNat_eq_round {n : ℕ} (hn : 0 < n) :
    ∃ (m : ℕ) (e : ℤ), 52 ≤ m.log2 ∧ m.log2 + e = n.log2 ∧
      UnpackedFloat.ofNat .binary64 n = .roundWithAccuracy .binary64 .positive m e .exact := by
  have hc : compare (n : ℤ) 0 = .gt := compare_gt_iff_gt.mpr (Int.natCast_pos.mpr hn)
  refine ⟨n <<< (0 - grid n 0).toNat, 0 - (0 - grid n 0).toNat, ?_, ?_, ?_⟩
  · rw [log2_shiftLeft hn.ne', grid]
    omega
  · rw [log2_shiftLeft hn.ne', grid]
    omega
  · simp only [UnpackedFloat.ofNat, UnpackedFloat.ofInt, UnpackedFloat.normalize, hc,
      UnpackedFloat.round, UnpackedFloat.decreaseExponent, targetExponent_eq, Int.toNat_natCast]

theorem mul_one_eq_round (s : UnpackedFloat.Sign) {m : ℕ} {e : ℤ} (hm : 0 < m) :
    UnpackedFloat.mul .binary64 (.finite s m e hm) one =
      .roundWithAccuracy .binary64 s (m <<< 52) (e - 52) .exact := by
  have hshift : m * 4503599627370496 = m <<< 52 := (Nat.shiftLeft_eq m 52).symm
  simp only [UnpackedFloat.mul, one, hshift]
  cases s <;> rfl

theorem mul_ten_pow_zero {m : ℕ} {e : ℤ} (hm : 0 < m) (hten : 0 < 10 ^ (0 : ℤ).toNat) :
    UnpackedFloat.mul .binary64 (.finite .positive m e hm)
        (.finite .positive (10 ^ (0 : ℤ).toNat) 0 hten) =
      .roundWithAccuracy .binary64 .positive m e .exact := by
  have hone : m * 10 ^ (0 : ℤ).toNat = m := Nat.mul_one m
  simp only [UnpackedFloat.mul, hone, Int.add_zero]
  rfl

theorem ofScientific_eq_round {n : ℕ} (hn : 0 < n) :
    ∃ (m : ℕ) (e : ℤ), 52 ≤ m.log2 ∧ m.log2 + e = n.log2 ∧
      UnpackedFloat.ofScientific .binary64 n 0 =
        .roundWithAccuracy .binary64 .positive m e .exact := by
  have hlog : (n <<< 53).log2 = n.log2 + 53 := log2_shiftLeft hn.ne' 53
  have hsmall : ¬ (0 : ℤ) > 2 ^ Format.binary64.exponentBits := by decide
  have hlarge : ¬ (0 : ℤ) < -(2 ^ Format.binary64.exponentBits + n.log2) := by
    norm_num
  refine ⟨n <<< 53, -53, by omega, by omega, ?_⟩
  simp only [UnpackedFloat.ofScientific, dif_neg hn.ne', if_neg hsmall, if_neg hlarge,
    if_pos (le_refl (0 : ℤ))]
  exact mul_ten_pow_zero _ _

theorem atLeastOne_mul_one {u : UnpackedFloat} (h : AtLeastOne u) :
    AtLeastOne (.mul .binary64 u one) := by
  cases u with
  | notANumber => cases h
  | zero s => cases h
  | infinity s => exact trivial
  | finite s m e hm =>
    obtain ⟨hlog, he⟩ := h
    rw [mul_one_eq_round]
    apply atLeastOne_roundWithAccuracy <;> rw [log2_shiftLeft hm.ne'] <;> omega

/-- A count has the magnitude of one and more, also where it is too large to be exact. -/
theorem atLeastOne_cast {n : ℕ} (hn : 0 < n) : AtLeastOne (Float.ofNat n).toModel.unpack := by
  rw [unpack_cast]
  split
  next =>
    obtain ⟨m, e, hm, he, hround⟩ := ofNat_eq_round hn
    rw [hround]
    have hone := atLeastOne_roundWithAccuracy .positive hm (show 0 ≤ e + m.log2 by omega)
    exact atLeastOne_stored (atLeastOne_mul_one (atLeastOne_stored hone))
  next =>
    obtain ⟨m, e, hm, he, hround⟩ := ofScientific_eq_round hn
    rw [hround]
    exact atLeastOne_stored (atLeastOne_roundWithAccuracy .positive hm (by omega))

theorem isZero_eq_false {x : Float} (h : AtLeastOne x.toModel.unpack) :
    Scalar.isZero x = false := by
  rw [Scalar.isZero, Bool.and_eq_false_iff, decide_eq_false_iff_not, decide_eq_false_iff_not,
    le_iff_compare, le_iff_compare, unpack_zero]
  cases hu : x.toModel.unpack with
  | notANumber =>
    rw [hu] at h
    cases h
  | zero s =>
    rw [hu] at h
    cases h
  | infinity s => cases s <;> simp [UnpackedFloat.compare]
  | finite s m e hm => cases s <;> simp [UnpackedFloat.compare]

instance : Scalar.Counting Float where
  cast_not_zero := fun hn => isZero_eq_false (atLeastOne_cast hn)
  one_not_zero := by decide +kernel
  thousand_not_zero := by decide +kernel
  fifth_not_zero := by decide +kernel
  zero_le_one := by decide +kernel

end Double

end BuildAdvisor
