import BuildAdvisor.Proofs.Scalar.Rounding

/-!
The places of doubles.

* `place` — where a double stands among all of them; the two zeros have one place;
* `compare_isLE_iff` — numbers in canonical form are compared by their places;
* `place_stored` — storing a number keeps its place, unless it is beyond the infinities;
* `isDouble_unpack` — what is read from the bits of a double is in canonical form;
* `le_iff_place` — so doubles are compared by their places.
-/

set_option autoImplicit false

namespace BuildAdvisor.Double

open Float.Model (Format UnpackedFloat)
open Float.Model.UnpackedFloat (Sign)

/-! ## Places -/

def place (u : UnpackedFloat) : ℤ :=
  (signOf u).apply (magnitude u)

/-- In canonical form, and below the infinities if it is finite. -/
def IsDouble (u : UnpackedFloat) : Prop :=
  Canonical u ∧ (u.isFinite = true → magnitude u < 0x7ff0000000000000)

theorem magnitude_nonneg {u : UnpackedFloat} (h : Canonical u) : 0 ≤ magnitude u := by
  cases u with
  | finite s m e hm =>
    obtain ⟨-, he, -⟩ := h
    simp only [magnitude]
    omega
  | notANumber => exact le_rfl
  | infinity s => exact Int.le.intro_sub _ rfl
  | zero s => exact le_rfl

theorem magnitude_pos {s : Sign} {m : ℕ} {e : ℤ} {hm : 0 < m}
    (h : Canonical (.finite s m e hm)) : 0 < magnitude (.finite s m e hm) := by
  obtain ⟨-, he, -⟩ := h
  simp only [magnitude]
  omega

/-- In canonical form the exponents decide, and the mantissas where these are equal. -/
theorem isLE_then_iff {s t : Sign} {m n : ℕ} {e f : ℤ} {hm : 0 < m} {hn : 0 < n}
    (ha : Canonical (.finite s m e hm)) (hb : Canonical (.finite t n f hn)) :
    ((compare e f).then (compare m n)).isLE = true ↔
      magnitude (.finite s m e hm) ≤ magnitude (.finite t n f hn) := by
  obtain ⟨hm53, he, hme⟩ := ha
  obtain ⟨hn53, hf, hnf⟩ := hb
  rw [Ordering.isLE_then_iff_or, compare_lt_iff_lt, Std.LawfulEqCmp.compare_eq_iff_eq,
    Nat.isLE_compare]
  simp only [magnitude]
  omega

theorem compare_finite_isLE_iff {s t : Sign} {m n : ℕ} {e f : ℤ} {hm : 0 < m} {hn : 0 < n}
    (ha : Canonical (.finite s m e hm)) (hb : Canonical (.finite t n f hn)) :
    (∃ o, (UnpackedFloat.finite s m e hm).compare (.finite t n f hn) = some o ∧ o.isLE = true) ↔
      place (.finite s m e hm) ≤ place (.finite t n f hn) := by
  have hpos := magnitude_pos ha
  have hpos' := magnitude_pos hb
  cases s <;> cases t <;>
    simp only [UnpackedFloat.compare, place, signOf, Sign.apply, exists_eq_left',
      Option.some.injEq, then_swap, isLE_then_iff ha hb, isLE_then_iff hb ha] <;>
    simp <;> omega

theorem compare_isLE_iff {a b : UnpackedFloat} (ha : IsDouble a) (hb : IsDouble b) :
    (∃ o, a.compare b = some o ∧ o.isLE = true) ↔ place a ≤ place b := by
  obtain ⟨hca, hfa⟩ := ha
  obtain ⟨hcb, hfb⟩ := hb
  have hinf : ∀ s, magnitude (.infinity s) = 0x7ff0000000000000 := fun _ => rfl
  have hzero : ∀ s, magnitude (.zero s) = 0 := fun _ => rfl
  cases a with
  | notANumber => cases hca
  | infinity s =>
    cases b with
    | notANumber => cases hcb
    | infinity t => cases s <;> cases t <;> decide
    | zero t => cases s <;> cases t <;> decide
    | finite t n f hn =>
      have hlow := magnitude_nonneg hcb
      have hhigh := hfb rfl
      cases s <;> cases t <;>
        simp only [UnpackedFloat.compare, place, signOf, Sign.apply, hinf] <;> simp <;> omega
  | zero s =>
    cases b with
    | notANumber => cases hcb
    | infinity t => cases s <;> cases t <;> decide
    | zero t => cases s <;> cases t <;> decide
    | finite t n f hn =>
      have hpos := magnitude_pos hcb
      cases s <;> cases t <;>
        simp only [UnpackedFloat.compare, place, signOf, Sign.apply, hzero] <;> simp <;> omega
  | finite s m e hm =>
    have hpos := magnitude_pos hca
    cases b with
    | notANumber => cases hcb
    | infinity t =>
      have hhigh := hfa rfl
      cases s <;> cases t <;>
        simp only [UnpackedFloat.compare, place, signOf, Sign.apply, hinf] <;> simp <;> omega
    | zero t =>
      cases s <;> cases t <;>
        simp only [UnpackedFloat.compare, place, signOf, Sign.apply, hzero] <;> simp <;> omega
    | finite t n f hn => exact compare_finite_isLE_iff hca hcb

/-! ## Storing -/

/-- Storing keeps the place of a number, unless it is beyond the infinities. -/
theorem place_stored {u : UnpackedFloat} (hu : Canonical u) :
    signOf (stored u) = signOf u ∧
      magnitude (stored u) = min (magnitude u) 0x7ff0000000000000 ∧ (stored u).isNaN = false := by
  cases u with
  | notANumber => cases hu
  | infinity s =>
    rw [stored_infinity]
    exact ⟨rfl, rfl, rfl⟩
  | zero s =>
    rw [stored_zero]
    exact ⟨rfl, rfl, rfl⟩
  | finite s m e hm =>
    obtain ⟨hhigh, he, hlow⟩ := hu
    have hmin : e ≤ 971 → magnitude (.finite s m e hm) =
        min (magnitude (.finite s m e hm)) 0x7ff0000000000000 := by
      simp only [magnitude]
      omega
    rcases lt_or_ge 971 e with hlarge | hsmall
    · rw [stored_large s hm hlarge]
      refine ⟨rfl, ?_, rfl⟩
      simp only [magnitude]
      omega
    · by_cases h52 : 2 ^ 52 ≤ m
      · rw [stored_normal s hm h52 hhigh ⟨he, hsmall⟩]
        exact ⟨rfl, hmin hsmall, rfl⟩
      · obtain rfl := hlow.resolve_left h52
        rw [stored_subnormal s hm (Nat.lt_of_not_le h52)]
        exact ⟨rfl, hmin hsmall, rfl⟩

theorem isDouble_unpack {b : BitVec Format.binary64.numBits}
    (hn : UnpackedFloat.isNaN (.unpack .binary64 b) = false) : IsDouble (.unpack .binary64 b) := by
  have hmantissa : (UnpackedFloat.unpackMantissa b).toNat < 2 ^ 52 := BitVec.isLt _
  have hbits := mantissa_bounds (UnpackedFloat.unpackMantissa b)
  have hexponent : (UnpackedFloat.unpackExponent b).toNat < 2048 := BitVec.isLt _
  have hbias : (Format.binary64.exponentBias : ℤ) + (52 : ℕ) = 1075 := by decide
  simp only [UnpackedFloat.unpack, hbias] at hn ⊢
  split_ifs at hn ⊢ with htop hm hz hm
  · exact ⟨trivial, nofun⟩
  · cases hn
  · exact ⟨trivial, fun _ => Int.ofNat_lt.mpr (by decide : 0 < 0x7ff0000000000000)⟩
  · have hzero : (UnpackedFloat.unpackExponent b).toNat = 0 := by
      rw [hz]
      rfl
    simp only [IsDouble, Canonical, magnitude, hzero]
    omega
  · have hpos : (UnpackedFloat.unpackExponent b).toNat ≠ 0 := fun h =>
      hz (BitVec.toNat_inj.mp h)
    have hfinite : (UnpackedFloat.unpackExponent b).toNat ≠ 2047 := fun h =>
      htop (BitVec.toNat_inj.mp h)
    simp only [IsDouble, Canonical, magnitude]
    omega

theorem le_iff_place {x y : Float} (hx : x.isNaN = false) (hy : y.isNaN = false) :
    x ≤ y ↔ place x.toModel.unpack ≤ place y.toModel.unpack :=
  le_iff_compare.trans (compare_isLE_iff (isDouble_unpack hx) (isDouble_unpack hy))

theorem le_trans_of_le {x y z : Float} (hxy : x ≤ y) (hyz : y ≤ z) : x ≤ z := by
  obtain ⟨hx, hy⟩ := isNaN_eq_false_of_le hxy
  have hz := (isNaN_eq_false_of_le hyz).2
  rw [le_iff_place hx hz]
  exact ((le_iff_place hx hy).mp hxy).trans ((le_iff_place hy hz).mp hyz)

theorem lt_of_lt_of_le {x y z : Float} (hxy : x < y) (hyz : y ≤ z) : x < z := by
  have hnot : ¬ z ≤ x := fun hzx => not_lt_iff.mpr (.inl (le_trans_of_le hyz hzx)) hxy
  rcases not_le_iff.mp hnot with hlt | hz | hx
  · exact hlt
  · exact absurd hz (Bool.eq_false_iff.mp (isNaN_eq_false_of_le hyz).2)
  · exact absurd hx (Bool.eq_false_iff.mp (isNaN_eq_false_of_lt hxy).1)

end BuildAdvisor.Double
