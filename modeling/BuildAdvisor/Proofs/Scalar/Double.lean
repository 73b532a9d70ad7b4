import BuildAdvisor.Scalar.Double
import Mathlib.Data.List.Basic

/-!
Where the undefined double stands among the others.

* `isNaN_iff` — the bits of an undefined double: the greatest exponent, and a fraction;
* `orderKey_of_isNaN` — there is one such double, so one place for it;
* `orderKey_bounds` — all others lie between the infinities, below that place and above its
  counterpart with a sign.
-/

set_option autoImplicit false

namespace BuildAdvisor.Double

open Float.Model (Format UnpackedFloat)

/-! ## The fields of a double -/

section Fields

variable (b : BitVec Format.binary64.numBits)

theorem unpackExponent_toNat :
    (UnpackedFloat.unpackExponent b).toNat = b.toNat / 0x10000000000000 % 0x800 := by
  unfold UnpackedFloat.unpackExponent
  rw [BitVec.toNat_cast, BitVec.extractLsb_toNat, Nat.shiftRight_eq_div_pow]
  rfl

theorem unpackMantissa_toNat :
    (UnpackedFloat.unpackMantissa b).toNat = b.toNat % 0x10000000000000 := by
  unfold UnpackedFloat.unpackMantissa
  rw [BitVec.toNat_cast, BitVec.extractLsb_toNat, Nat.shiftRight_zero]
  rfl

theorem unpackExponent_eq_iff :
    UnpackedFloat.unpackExponent b = -1#_ ↔ b.toNat / 0x10000000000000 % 0x800 = 0x7ff := by
  rw [← BitVec.toNat_inj, unpackExponent_toNat]
  rfl

theorem unpackMantissa_eq_zero_iff :
    UnpackedFloat.unpackMantissa b = 0#_ ↔ b.toNat % 0x10000000000000 = 0 := by
  rw [← BitVec.toNat_inj, unpackMantissa_toNat]
  rfl

theorem unpack_isNaN : (UnpackedFloat.unpack Format.binary64 b).isNaN = true ↔
    UnpackedFloat.unpackExponent b = -1#_ ∧ UnpackedFloat.unpackMantissa b ≠ 0#_ := by
  unfold UnpackedFloat.unpack
  by_cases he : UnpackedFloat.unpackExponent b = -1#_
  · rw [if_pos he]
    by_cases hm : UnpackedFloat.unpackMantissa b = 0#_
    · rw [if_pos hm]
      exact iff_of_false Bool.false_ne_true fun h => h.2 hm
    · rw [if_neg hm]
      exact iff_of_true rfl ⟨he, hm⟩
  · rw [if_neg he]
    refine iff_of_false ?_ fun h => he h.1
    by_cases hz : UnpackedFloat.unpackExponent b = 0#_
    · rw [if_pos hz]
      by_cases hm : UnpackedFloat.unpackMantissa b = 0#_
      · rw [dif_pos hm]
        exact Bool.false_ne_true
      · rw [dif_neg hm]
        exact Bool.false_ne_true
    · rw [if_neg hz]
      exact Bool.false_ne_true

end Fields

theorem isNaN_iff (x : Float) : x.isNaN = true ↔
    x.toBits.toNat / 0x10000000000000 % 0x800 = 0x7ff ∧ x.toBits.toNat % 0x10000000000000 ≠ 0 := by
  have h := unpack_isNaN x.toModel.toBits.toBitVec
  rw [unpackExponent_eq_iff, Ne, unpackMantissa_eq_zero_iff] at h
  exact h

/-! ## Places -/

theorem toBits_of_isNaN {x : Float} (h : x.isNaN = true) : x.toBits.toNat = 0x7ff8000000000000 := by
  have hfields := (unpack_isNaN x.toModel.toBits.toBitVec).mp h
  have hbits := x.toModel.valid.eq_packedNaN hfields.1 hfields.2
  have hnat := congrArg BitVec.toNat hbits
  exact hnat.trans (by decide)

theorem orderKey_of_isNaN {x : Float} (h : x.isNaN = true) : orderKey x = 0x7ff8000000000000 := by
  unfold orderKey
  rw [toBits_of_isNaN h]
  rfl

theorem orderKey_bounds {x : Float} (h : x.isNaN = false) :
    -0x7ff8000000000000 < orderKey x ∧ orderKey x < 0x7ff8000000000000 := by
  have hnot : ¬ (x.toBits.toNat / 0x10000000000000 % 0x800 = 0x7ff ∧
      x.toBits.toNat % 0x10000000000000 ≠ 0) := by
    rw [← isNaN_iff, h]
    exact Bool.false_ne_true
  have hlt : x.toBits.toNat < 0x10000000000000000 := x.toBits.toNat_lt
  have hsize : UInt64.size / 2 = 0x8000000000000000 := rfl
  simp only [orderKey, hsize]
  split <;> omega

end BuildAdvisor.Double
