import BuildAdvisor.Proofs.Scalar.Arithmetic

/-!
Reading numbers back from the bits of a double.

* `stored` — a number as it is read back from where it was stored;
* `stored_normal`, `stored_subnormal` — numbers in the form of the format are read back as they
  were;
* `stored_large` — numbers beyond the greatest double are read back as infinite.
-/

set_option autoImplicit false

namespace BuildAdvisor.Double

open Float.Model (Format UnpackedFloat)
open Float.Model.UnpackedFloat (Sign)

def stored (u : UnpackedFloat) : UnpackedFloat :=
  UnpackedFloat.unpack .binary64 (UnpackedFloat.pack .binary64 u)

/-- The mantissa of a normal number has one bit that is not stored. -/
theorem mantissa_bounds (m : BitVec 52) :
    2 ^ 52 ≤ (1#1 ++ m).toNat ∧ (1#1 ++ m).toNat < 2 ^ 53 := by
  refine ⟨?_, (1#1 ++ m).isLt⟩
  rw [BitVec.toNat_append]
  exact Nat.left_le_or

theorem one_append_ofNat {m : ℕ} (hlow : 2 ^ 52 ≤ m) (hhigh : m < 2 ^ 53) :
    (1#1 ++ BitVec.ofNat 52 m).toNat = m := by
  have hmod : (BitVec.ofNat 52 m).toNat = m - 2 ^ 52 := by
    rw [BitVec.toNat_ofNat]
    omega
  rw [BitVec.toNat_append, hmod, Nat.shiftLeft_eq]
  change 1 * 2 ^ 52 ||| (m - 2 ^ 52) = m
  rw [Nat.one_mul, ← Nat.two_pow_add_eq_or_of_lt (i := 52) (by omega) 1]
  omega

theorem stored_infinity (s : Sign) : stored (.infinity s) = .infinity s := by
  cases s <;> rfl

theorem stored_zero (s : Sign) : stored (.zero s) = .zero s := by
  cases s <;> rfl

section Finite

variable (s : Sign) {m : ℕ} {e : ℤ} (hm : 0 < m)

theorem biasedExponent_eq (e : ℤ) :
    (e + Format.binary64.exponentBias + (52 : ℕ)).toNat = (e + 1075).toNat := by
  change (e + 1023 + 52).toNat = _
  omega

theorem sign_packComponents (exponent : BitVec 11) (mantissa : BitVec 52) :
    Sign.ofBitVec (UnpackedFloat.unpackSign
      (UnpackedFloat.packComponents .binary64 s exponent mantissa)) = s := by
  rw [UnpackedFloat.unpackSign_packComponents]
  cases s <;> rfl

theorem stored_large (he : 971 < e) : stored (.finite s m e hm) = .infinity s := by
  have hbig : 2 ^ 11 ≤ (e + 1075).toNat + 1 := by omega
  simp only [stored, UnpackedFloat.pack, biasedExponent_eq]
  rw [if_pos hbig]
  exact stored_infinity s

theorem stored_normal (hlow : 2 ^ 52 ≤ m) (hhigh : m < 2 ^ 53) (he : -1074 ≤ e ∧ e ≤ 971) :
    stored (.finite s m e hm) = .finite s m e hm := by
  have hlog : m.log2 + 1 = Format.binary64.mantissaBits := by
    rw [(Nat.log2_eq_iff hm.ne').mpr ⟨hlow, hhigh⟩]
    rfl
  have hsmall : ¬ 2 ^ 11 ≤ (e + 1075).toNat + 1 := by omega
  have hnat : (BitVec.ofNat 11 (e + 1075).toNat).toNat = (e + 1075).toNat := by
    rw [BitVec.toNat_ofNat]
    omega
  have htop : BitVec.ofNat 11 (e + 1075).toNat ≠ -1#11 := by
    rw [Ne, ← BitVec.toNat_inj, hnat]
    change ¬ (e + 1075).toNat = 2047
    omega
  have hzero : BitVec.ofNat 11 (e + 1075).toNat ≠ 0#11 := by
    rw [Ne, ← BitVec.toNat_inj, hnat]
    change ¬ (e + 1075).toNat = 0
    omega
  simp only [stored, UnpackedFloat.pack, biasedExponent_eq]
  rw [if_neg hsmall, if_pos hlog]
  simp only [UnpackedFloat.unpack, UnpackedFloat.unpackExponent_packComponents,
    UnpackedFloat.unpackMantissa_packComponents, if_neg htop, if_neg hzero, hnat,
    sign_packComponents, UnpackedFloat.finite.injEq, true_and]
  refine ⟨one_append_ofNat hlow hhigh, ?_⟩
  change ((e + 1075).toNat : ℤ) - (1023 + 52) = e
  omega

theorem stored_subnormal (hhigh : m < 2 ^ 52) :
    stored (.finite s m (-1074) hm) = .finite s m (-1074) hm := by
  have hlog : ¬ m.log2 + 1 = Format.binary64.mantissaBits := by
    have hlt := (Nat.log2_lt hm.ne').mpr hhigh
    change ¬ m.log2 + 1 = 53
    omega
  have hnat : (BitVec.ofNat 52 m).toNat = m := by
    rw [BitVec.toNat_ofNat, Nat.mod_eq_of_lt hhigh]
  have hzero : BitVec.ofNat 52 m ≠ 0#52 := by
    rw [Ne, ← BitVec.toNat_inj, hnat]
    exact hm.ne'
  have hexponent : ¬ (0#11 : BitVec 11) = -1#11 := by decide
  simp only [stored, UnpackedFloat.pack, biasedExponent_eq]
  rw [if_neg (by decide), if_neg hlog]
  simp only [UnpackedFloat.unpack, UnpackedFloat.unpackExponent_packComponents,
    UnpackedFloat.unpackMantissa_packComponents, if_neg hexponent, dif_neg hzero, hnat,
    sign_packComponents, if_true]
  rfl

end Finite

end BuildAdvisor.Double
