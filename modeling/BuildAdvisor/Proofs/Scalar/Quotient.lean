import BuildAdvisor.Proofs.Scalar.Product

/-!
A quotient of counts against a product with one of them.

* `roundWithAccuracy_eq_exact` — a mantissa with a remainder is rounded like a longer one without,
  its `quarters`;
* `nearest_le_magnitude` — what is not above a double is not rounded above it;
* `count_div_form` — the quotient of two counts as such a rounding;
* `product_or_quotient_le` — of two counts and a double, the product with one count does not pass
  the other, or the quotient of the counts does not pass the double;
* `count_mul_le_of_lt_div` — so below the rounded quotient the rounded product is not too large;
* `beq_of_le_of_le` — doubles that are not above each other are equal as numbers.

At the rounded quotient itself the product may be too large: the quotient may have been rounded up.
-/

set_option autoImplicit false

namespace BuildAdvisor.Double

open Float.Model (Format UnpackedFloat totalExponent)
open Float.Model.UnpackedFloat (Accuracy ExtendedMantissa Sign)

/-! ## Remainders -/

section Remainder

variable (x : ExtendedMantissa)

theorem quarters_lt : quarters x < 4 * (x.mantissa + 1) := by
  obtain ⟨m, r, s⟩ := x
  cases r <;> cases s <;> simp only [quarters, Bool.toNat_false, Bool.toNat_true] <;> omega

theorem quarters_div_four : quarters x / 4 = x.mantissa := by
  obtain ⟨m, r, s⟩ := x
  cases r <;> cases s <;> simp only [quarters, Bool.toNat_false, Bool.toNat_true] <;> omega

theorem whole_quarters_shiftRight : whole (quarters x) >>> 2 = x := by
  obtain ⟨m, r, s⟩ := x
  change (whole (quarters ⟨m, r, s⟩)).shiftRightOne.shiftRightOne = _
  cases r <;> cases s <;>
    simp only [quarters, whole, ExtendedMantissa.ofMantissaAndAccuracy,
      ExtendedMantissa.shiftRightOne, Bool.toNat_false, Bool.toNat_true, Bool.or_false,
      ExtendedMantissa.mk.injEq, bne_eq_false_iff_eq, bne_iff_ne] <;> omega

variable {x} in
theorem log2_quarters (hx : 52 ≤ x.mantissa.log2) : (quarters x).log2 = x.mantissa.log2 + 2 := by
  have hlog := log2_div_two_pow (quarters x) 2
  rw [show quarters x / 2 ^ 2 = x.mantissa from quarters_div_four x] at hlog
  omega

theorem shiftRight_add (j k : ℕ) : x >>> (j + k) = (x >>> j) >>> k := by
  induction k with
  | zero => rfl
  | succ k ih => exact congrArg ExtendedMantissa.shiftRightOne ih

end Remainder

@[simp] theorem ofMantissaAndAccuracy_mantissa (m : ℕ) (a : Accuracy) :
    (ExtendedMantissa.ofMantissaAndAccuracy m a).mantissa = m := by
  rcases a with _ | o
  · rfl
  · cases o <;> rfl

/-- Two more bits hold all that rounding has to know of a remainder. -/
theorem roundWithAccuracy_eq_exact (s : Sign) {m : ℕ} {e : ℤ} (hm : 52 ≤ m.log2) (a : Accuracy) :
    UnpackedFloat.roundWithAccuracy .binary64 s m e a =
      UnpackedFloat.roundWithAccuracy .binary64 s (quarters (.ofMantissaAndAccuracy m a)) (e - 2)
        .exact := by
  have hgrid : grid (quarters (.ofMantissaAndAccuracy m a)) (e - 2) = grid m e := by
    have hlog := log2_quarters (x := .ofMantissaAndAccuracy m a) (by simpa using hm)
    rw [ofMantissaAndAccuracy_mantissa] at hlog
    simp only [grid, hlog]
    omega
  have hshift : (grid m e - (e - 2)).toNat = 2 + (grid m e - e).toNat := by
    simp only [grid]
    omega
  have hfirst : UnpackedFloat.shiftToTargetExponent .binary64 m e a =
      UnpackedFloat.shiftToTargetExponent .binary64 (quarters (.ofMantissaAndAccuracy m a)) (e - 2)
        .exact := by
    rw [shiftToTargetExponent_eq, hgrid, hshift, shiftRight_add, whole_quarters_shiftRight,
      UnpackedFloat.shiftToTargetExponent, targetExponent_eq]
    refine Prod.ext rfl ?_
    change e + ((grid m e - e).toNat : ℤ) = _
    omega
  rw [UnpackedFloat.roundWithAccuracy, hfirst]
  rfl

/-! ## Doubles as what is rounded -/

section Canonical

variable {s : Sign} {m : ℕ} {e : ℤ} {hm : 0 < m} (h : Canonical (.finite s m e hm))

include h

theorem grid_canonical : grid m e = e := by
  obtain ⟨hhigh, he, hlow⟩ := h
  rcases hlow with hlow | rfl
  · have hlog : m.log2 = 52 := (Nat.log2_eq_iff hm.ne').mpr ⟨hlow, hhigh⟩
    simp only [grid, hlog]
    omega
  · have hlog : m.log2 < 53 := (Nat.log2_lt hm.ne').mpr hhigh
    simp only [grid]
    omega

theorem nearest_canonical : nearest m e = magnitude (.finite s m e hm) := by
  rw [nearest, rounded, grid_canonical h, Int.sub_self]
  rfl

/-- A number that is not above a double is not rounded above it. -/
theorem nearest_le_magnitude {p : ℕ} {f : ℤ} (hp : 52 ≤ p.log2) (hf : f ≤ e)
    (hle : p ≤ m <<< (e - f).toNat) : nearest p f ≤ magnitude (.finite s m e hm) := by
  have hshift := nearest_shiftLeft hm.ne' e (e - f).toNat (grid_canonical h).ge
  rw [show e - (e - f).toNat = f by omega, nearest_canonical h] at hshift
  exact hshift ▸ nearest_mono hp hle

end Canonical

/-! ## Quotients of counts -/

/-- The mantissa of a quotient, and what is left of the division. -/
def quotientOf (m k : ℕ) : ExtendedMantissa :=
  .ofMantissaAndAccuracy ((m <<< 53) / k) (UnpackedFloat.accuracyOfFraction ((m <<< 53) % k) k)

section Counts

variable {m k : ℕ} {e f : ℤ} {hm : 0 < m} {hk : 0 < k}
  (hc : UpTo 14 (.finite .positive m e hm)) (hn : UpTo 14 (.finite .positive k f hk))

include hc hn

theorem log2_quotientOf : 52 ≤ (quotientOf m k).mantissa.log2 := by
  obtain ⟨hmlow, -⟩ := (Nat.log2_eq_iff hm.ne').mp hc.1
  obtain ⟨-, hkhigh⟩ := (Nat.log2_eq_iff hk.ne').mp hn.1
  have hlow : 2 ^ 52 ≤ (m <<< 53) / k := by
    rw [Nat.le_div_iff_mul_le hk, Nat.shiftLeft_eq]
    exact Nat.mul_le_mul hmlow hkhigh.le
  rw [quotientOf, ofMantissaAndAccuracy_mantissa]
  exact (Nat.le_log2 (by omega)).mpr hlow

theorem log2_quarters_quotientOf : 52 ≤ (quarters (quotientOf m k)).log2 := by
  have hlog := log2_quotientOf hc hn
  rw [log2_quarters hlog]
  omega

theorem count_div_form :
    UnpackedFloat.div .binary64 (.finite .positive m e hm) (.finite .positive k f hk) =
      .roundWithAccuracy .binary64 .positive (quarters (quotientOf m k)) (e - f - 55) .exact := by
  have hlog := log2_quotientOf hc hn
  rw [quotientOf, ofMantissaAndAccuracy_mantissa] at hlog
  obtain ⟨hmlog, hme, hme'⟩ := hc
  obtain ⟨hklog, hkf, hkf'⟩ := hn
  have htarget : Format.binary64.targetExponent (totalExponent m e - totalExponent k f) =
      e - f - 53 := by
    simp only [Format.targetExponent, totalExponent, Format.mantissaBits, Format.minExponent, hmlog,
      hklog]
    norm_num
    omega
  have hdiv : UnpackedFloat.divCore .binary64 m e k f =
      ((m <<< 53) / k, e - f - 53,
        UnpackedFloat.accuracyOfFraction ((m <<< 53) % k) k) := by
    have hexponent : min (e - f) (e - f - 53) = e - f - 53 := by omega
    have hshift : (e - f - (e - f - 53)).toNat = 53 := by omega
    simp only [UnpackedFloat.divCore, htarget, hexponent, hshift]
  simp only [UnpackedFloat.div, hdiv]
  rw [roundWithAccuracy_eq_exact _ hlog, show e - f - 53 - 2 = e - f - 55 by omega]
  rfl

variable {n : ℕ} {g : ℤ} {hx : 0 < n} (hcanonical : Canonical (.finite .positive n g hx))

include hcanonical

/-- Both sides in whole numbers: of the exact product and the exact quotient one is small enough. -/
theorem product_or_quotient_exact :
    (f + g ≤ e ∧ k * n ≤ m <<< (e - (f + g)).toNat) ∨
      (e - f - 53 ≤ g ∧ m <<< 53 < k * n <<< (g - (e - f - 53)).toNat) := by
  obtain ⟨hmlog, hme, hme'⟩ := hc
  obtain ⟨hklog, hkf, hkf'⟩ := hn
  obtain ⟨hnhigh, hg, hnlow⟩ := hcanonical
  obtain ⟨hmlow, hmhigh⟩ := (Nat.log2_eq_iff hm.ne').mp hmlog
  obtain ⟨hklow, hkhigh⟩ := (Nat.log2_eq_iff hk.ne').mp hklog
  by_cases hp : f + g ≤ e
  · refine or_iff_not_imp_left.mpr fun hnot => ?_
    have hlt : m <<< (e - (f + g)).toNat < k * n := not_le.mp fun hle => hnot ⟨hp, hle⟩
    -- A product has 106 bits, so the exponents are not far apart.
    have hbits : 2 ^ (52 + (e - (f + g)).toNat) < 2 ^ (53 + 53) := by
      rw [Nat.pow_add, Nat.pow_add]
      rw [Nat.shiftLeft_eq] at hlt
      exact ((Nat.mul_le_mul_right _ hmlow).trans_lt hlt).trans (Nat.mul_lt_mul'' hkhigh hnhigh)
    have hd := (Nat.pow_lt_pow_iff_right (by decide)).mp hbits
    refine ⟨by omega, ?_⟩
    have hsplit : 53 = (e - (f + g)).toNat + (g - (e - f - 53)).toNat := by omega
    rw [hsplit, Nat.shiftLeft_add, Nat.shiftLeft_eq _ (g - (e - f - 53)).toNat,
      Nat.shiftLeft_eq n, ← Nat.mul_assoc]
    exact Nat.mul_lt_mul_of_pos_right hlt (Nat.two_pow_pos _)
  · right
    have hlow : 2 ^ 52 ≤ n := hnlow.resolve_right (by omega)
    refine ⟨by omega, ?_⟩
    calc m <<< 53 < 2 ^ 53 * 2 ^ 53 := by
          rw [Nat.shiftLeft_eq]
          exact Nat.mul_lt_mul_of_pos_right hmhigh (Nat.two_pow_pos 53)
      _ ≤ 2 ^ 52 * (2 ^ 52 * 2 ^ 53) := by norm_num
      _ ≤ k * n <<< (g - (e - f - 53)).toNat := by
          rw [Nat.shiftLeft_eq]
          exact Nat.mul_le_mul hklow
            (Nat.mul_le_mul hlow (Nat.pow_le_pow_right Nat.two_pos (by omega)))

theorem product_or_quotient_le :
    magnitude (.mul .binary64 (.finite .positive k f hk) (.finite .positive n g hx)) ≤
        magnitude (.finite .positive m e hm) ∨
      magnitude (.div .binary64 (.finite .positive m e hm) (.finite .positive k f hk)) ≤
        magnitude (.finite .positive n g hx) := by
  obtain ⟨hmlow, hmhigh⟩ := (Nat.log2_eq_iff hm.ne').mp hc.1
  have hcount : Canonical (.finite .positive m e hm) :=
    ⟨hmhigh, by have := hc.2.1; omega, .inl hmlow⟩
  rcases product_or_quotient_exact hc hn hcanonical with ⟨hexponent, hle⟩ | ⟨hexponent, hlt⟩
  · left
    have hlog : 52 ≤ (k * n).log2 := log2_mul_le hn.1 hx
    have hplace := (roundWithAccuracy_place .positive (e := f + g) hlog).2.2
    exact hplace.trans_le (nearest_le_magnitude hcount hlog hexponent hle)
  · right
    have hlong := log2_quarters_quotientOf hc hn
    -- The exact quotient is below a whole number, so its quarters are below four times that.
    have hquarters : quarters (quotientOf m k) ≤ n <<< (g - (e - f - 55)).toNat := by
      have hq := quarters_lt (quotientOf m k)
      have hdiv : (quotientOf m k).mantissa < n <<< (g - (e - f - 53)).toNat := by
        rw [quotientOf, ofMantissaAndAccuracy_mantissa]
        exact Nat.div_lt_of_lt_mul hlt
      rw [show (g - (e - f - 55)).toNat = (g - (e - f - 53)).toNat + 2 by omega, Nat.shiftLeft_add,
        Nat.shiftLeft_eq _ 2]
      omega
    rw [count_div_form hc hn, (roundWithAccuracy_place .positive hlong).2.2]
    exact nearest_le_magnitude hcanonical hlong (by omega) hquarters

end Counts

theorem UpTo.eq_finite {top : ℤ} {u : UnpackedFloat} (h : UpTo top u) :
    ∃ (m : ℕ) (e : ℤ) (hm : 0 < m), u = .finite .positive m e hm := by
  cases u with
  | finite s m e hm =>
    cases s with
    | positive => exact ⟨m, e, hm, rfl⟩
    | negative => cases h
  | _ => cases h

/-! ## Rounded products and quotients -/

theorem place_stored_le {u : UnpackedFloat} (h : Canonical u) :
    place (stored u) ≤ magnitude u ∧ place (stored u) ≤ 0x7ff0000000000000 := by
  have hnonneg := magnitude_nonneg h
  rw [place, (place_stored h).1, (place_stored h).2.1]
  cases signOf u <;> simp only [Sign.apply] <;> omega

theorem place_product_le {c n x : UnpackedFloat} (hc : UpTo 14 c) (hn : UpTo 14 n)
    (hx : IsDouble x) (h : place x < place (stored (.div .binary64 c n))) :
    (stored (.mul .binary64 n x)).isNaN = false ∧
      place (stored (.mul .binary64 n x)) ≤ place c := by
  obtain ⟨m, e, hm, rfl⟩ := hc.eq_finite
  obtain ⟨k, f, hk, rfl⟩ := hn.eq_finite
  obtain ⟨hsign, hproduct⟩ := mul_form hk hn.1 (f := f) hx.1
  obtain ⟨hsign', hmagnitude, hnumber⟩ := place_stored hproduct
  have hquotient : Canonical (.div .binary64 (.finite .positive m e hm)
      (.finite .positive k f hk)) := by
    rw [count_div_form hc hn]
    exact (roundWithAccuracy_place .positive (log2_quarters_quotientOf hc hn)).2.1
  obtain ⟨hupper, htop⟩ := place_stored_le hquotient
  have hcount : 0 ≤ place (.finite .positive m e hm) := by
    have he := hc.2.1
    change 0 ≤ (e + 1074) * 2 ^ 52 + (m : ℤ)
    omega
  have hnonneg := magnitude_nonneg hproduct
  refine ⟨hnumber, ?_⟩
  cases hs : signOf x with
  | negative =>
    rw [place, hsign', hsign, hs, hmagnitude]
    simp only [Sign.apply]
    omega
  | positive =>
    refine (place_stored_le hproduct).1.trans ?_
    cases x with
    | notANumber => cases hx.1
    | zero s => exact hcount
    | infinity s =>
      obtain rfl : s = .positive := hs
      exact absurd h (not_lt.mpr htop)
    | finite s n g hpos =>
      obtain rfl : s = .positive := hs
      exact (product_or_quotient_le hc hn hx.1).resolve_right (not_le.mpr (h.trans_le hupper))

/-- The quotient of two counts is rounded and so is the product, but a number below the one keeps
the other within the dividend. -/
theorem count_mul_le_of_lt_div {n c : ℕ} (hn : 0 < n) (hnsize : n < UInt64.size) (hc : 0 < c)
    (hcsize : c < UInt64.size) {x : Float} (h : x < Float.ofNat c / Float.ofNat n) :
    Float.ofNat n * x ≤ Float.ofNat c := by
  obtain ⟨hx, hquotient⟩ := isNaN_eq_false_of_lt h
  have hcount := upTo_cast hc hcsize
  have hdouble : IsDouble x.toModel.unpack := isDouble_unpack hx
  have hdiv : (Float.ofNat c / Float.ofNat n).toModel.unpack =
      stored (.div .binary64 (Float.ofNat c).toModel.unpack (Float.ofNat n).toModel.unpack) := rfl
  have hmul : (Float.ofNat n * x).toModel.unpack =
      stored (.mul .binary64 (Float.ofNat n).toModel.unpack x.toModel.unpack) := rfl
  have hplaces : place x.toModel.unpack < place (Float.ofNat c / Float.ofNat n).toModel.unpack := by
    refine not_le.mp fun hle => not_le_iff.mpr (.inl h) ?_
    exact (le_iff_place hquotient hx).mpr hle
  rw [hdiv] at hplaces
  obtain ⟨hnumber, hle⟩ := place_product_le hcount (upTo_cast hn hnsize) hdouble hplaces
  rw [← hmul] at hnumber hle
  refine (le_iff_place hnumber ?_).mpr hle
  obtain ⟨m, e, hm, heq⟩ := hcount.eq_finite
  change (Float.ofNat c).toModel.unpack.isNaN = false
  rw [heq]
  rfl

theorem beq_of_le_of_le {x y : Float} (hxy : x ≤ y) (hyx : y ≤ x) : (x == y) = true := by
  obtain ⟨o, ho, hle⟩ := le_iff_compare.mp hxy
  obtain ⟨o', ho', hle'⟩ := le_iff_compare.mp hyx
  rw [compare_swap, ho, Option.map_some, Option.some_inj] at ho'
  subst ho'
  have heq : o = .eq := by
    cases o with
    | lt => cases hle'
    | eq => rfl
    | gt => cases hle
  change (x.toModel.unpack.compare y.toModel.unpack == some .eq) = true
  rw [ho, heq]
  rfl

end BuildAdvisor.Double
