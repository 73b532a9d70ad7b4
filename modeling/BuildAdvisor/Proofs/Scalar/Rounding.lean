import BuildAdvisor.Proofs.Scalar.Divisor

/-!
Rounding to the nearest double keeps the order of what is rounded.

* `quarters` — a mantissa with its two residual bits as one number, in whose order shifting and
  rounding are monotone;
* `rounded` — the mantissa of a number among the doubles around it, whose exponent is its `grid`;
* `Canonical`, `magnitude` — the form in which doubles are compared, and the place of such a double
  among the positive ones: neighbours have places one apart;
* `nearest_mono` — a greater mantissa is not rounded to a lower place;
* `roundWithAccuracy_place` — the place to which a long mantissa is rounded.
-/

set_option autoImplicit false

namespace BuildAdvisor.Double

open Float.Model (UnpackedFloat)
open Float.Model.UnpackedFloat (ExtendedMantissa Sign)

/-! ## Residual bits -/

/-- Four times the number that is to be rounded, as far as rounding can tell: the last bit only says
that something was cut off. -/
def quarters (x : ExtendedMantissa) : ℕ :=
  4 * x.mantissa + 2 * x.roundBit.toNat + x.stickyBit.toNat

theorem toNat_odd (m : ℕ) : (m % 2 != 0).toNat = m % 2 := by
  rcases Nat.mod_two_eq_zero_or_one m with h | h <;> simp [h]

section Quarters

variable {x y : ExtendedMantissa}

theorem quarters_shiftRightOne_mono (h : quarters x ≤ quarters y) :
    quarters x.shiftRightOne ≤ quarters y.shiftRightOne := by
  obtain ⟨m, r, s⟩ := x
  obtain ⟨n, t, u⟩ := y
  simp only [quarters, ExtendedMantissa.shiftRightOne, toNat_odd] at h ⊢
  cases r <;> cases s <;> cases t <;> cases u <;>
    simp only [Bool.or_false, Bool.or_true, Bool.toNat_false, Bool.toNat_true] at h ⊢ <;> omega

theorem quarters_shiftRight_mono (h : quarters x ≤ quarters y) (k : ℕ) :
    quarters (x >>> k) ≤ quarters (y >>> k) := by
  induction k with
  | zero => exact h
  | succ k ih => exact quarters_shiftRightOne_mono ih

theorem roundedMantissa_mono (h : quarters x ≤ quarters y) :
    x.roundedMantissa ≤ y.roundedMantissa := by
  obtain ⟨m, r, s⟩ := x
  obtain ⟨n, t, u⟩ := y
  simp only [quarters] at h
  cases r <;> cases s <;> cases t <;> cases u <;>
    simp only [Bool.toNat_false, Bool.toNat_true, ExtendedMantissa.roundedMantissa,
      ExtendedMantissa.accuracy, UnpackedFloat.Accuracy.roundToNearestEven] at h ⊢ <;> omega

theorem roundedMantissa_le (x : ExtendedMantissa) : x.roundedMantissa ≤ x.mantissa + 1 := by
  obtain ⟨m, r, s⟩ := x
  cases r <;> cases s <;>
    simp only [ExtendedMantissa.roundedMantissa, ExtendedMantissa.accuracy,
      UnpackedFloat.Accuracy.roundToNearestEven] <;> omega

end Quarters

/-- A mantissa with nothing after it. -/
def whole (m : ℕ) : ExtendedMantissa :=
  .ofMantissaAndAccuracy m .exact

@[simp] theorem whole_mantissa (m : ℕ) : (whole m).mantissa = m := rfl

/-- Zeros that were put after a mantissa are taken away first. -/
theorem whole_shiftLeft_shiftRight (m j k : ℕ) : whole (m <<< j) >>> (j + k) = whole m >>> k := by
  have hzeros : whole (m <<< j) >>> j = whole m := by
    induction j generalizing m with
    | zero => rfl
    | succ j ih =>
      change (whole (m <<< (j + 1)) >>> j).shiftRightOne = whole m
      have hodd : m <<< (j + 1) = (m <<< 1) <<< j := by
        rw [← Nat.shiftLeft_add, Nat.add_comm]
      rw [hodd, ih]
      have hbit : m <<< 1 = 2 * m := by rw [Nat.shiftLeft_eq, Nat.pow_one, Nat.mul_comm]
      rw [hbit]
      simp [whole, ExtendedMantissa.ofMantissaAndAccuracy, ExtendedMantissa.shiftRightOne]
  induction k with
  | zero => exact hzeros
  | succ k ih =>
    change (whole (m <<< j) >>> (j + k)).shiftRightOne = (whole m >>> k).shiftRightOne
    rw [ih]

/-! ## The doubles around a number -/

def rounded (m : ℕ) (e : ℤ) : ℕ :=
  (whole m >>> (grid m e - e).toNat).roundedMantissa

section Grid

variable {m : ℕ} {e : ℤ}

theorem grid_mono {n : ℕ} (h : m ≤ n) : grid m e ≤ grid n e := by
  have hlog : m.log2 ≤ n.log2 := by
    rw [Nat.log2_eq_log_two, Nat.log2_eq_log_two]
    exact Nat.log_mono_right h
  simp only [grid]
  omega

theorem rounded_le : rounded m e ≤ 2 ^ 53 := by
  have hle := roundedMantissa_le (whole m >>> (grid m e - e).toNat)
  have hdiv : (whole m >>> (grid m e - e).toNat).mantissa < 2 ^ 53 := by
    rw [mantissa_shiftRight]
    change m / 2 ^ (grid m e - e).toNat < 2 ^ 53
    refine (Nat.div_lt_iff_lt_mul (Nat.two_pow_pos _)).mpr ?_
    rw [← Nat.pow_add]
    have hexp : m.log2 + 1 ≤ 53 + (grid m e - e).toNat := by
      simp only [grid]
      omega
    exact Nat.lt_log2_self.trans_le (Nat.pow_le_pow_right Nat.two_pos hexp)
  exact hle.trans hdiv

/-- Above the lowest exponent a rounded mantissa has all of its bits. -/
theorem le_rounded (hm : 52 ≤ m.log2) (hlow : -1074 < grid m e) : 2 ^ 52 ≤ rounded m e := by
  refine le_trans ?_ (mantissa_le_roundedMantissa _)
  rw [mantissa_shiftRight]
  change 2 ^ 52 ≤ m / 2 ^ (grid m e - e).toNat
  refine (Nat.le_div_iff_mul_le (Nat.two_pow_pos _)).mpr ?_
  have hne : m ≠ 0 := by
    rintro rfl
    simp at hm
  have hexp : 52 + (grid m e - e).toNat = m.log2 := by
    simp only [grid] at hlow ⊢
    omega
  rw [← Nat.pow_add, hexp]
  exact Nat.log2_self_le hne

theorem rounded_mono {n : ℕ} (h : m ≤ n) (hgrid : grid m e = grid n e) :
    rounded m e ≤ rounded n e := by
  rw [rounded, rounded, ← hgrid]
  apply roundedMantissa_mono
  apply quarters_shiftRight_mono
  simp only [quarters, whole, ExtendedMantissa.ofMantissaAndAccuracy]
  omega

end Grid

/-! ## Places -/

/-- Numbers whose mantissa has 53 bits, or fewer at the lowest exponent. -/
def Canonical : UnpackedFloat → Prop
  | .notANumber => False
  | .finite _ m e _ => m < 2 ^ 53 ∧ -1074 ≤ e ∧ (2 ^ 52 ≤ m ∨ e = -1074)
  | _ => True

def signOf : UnpackedFloat → Sign
  | .notANumber => .positive
  | .infinity s => s
  | .zero s => s
  | .finite s _ _ _ => s

/-- The number of doubles from zero up to a positive one. -/
def magnitude : UnpackedFloat → ℤ
  | .notANumber => 0
  | .infinity _ => 0x7ff0000000000000
  | .zero _ => 0
  | .finite _ m e _ => (e + 1074) * 2 ^ 52 + m

def nearest (m : ℕ) (e : ℤ) : ℤ :=
  (grid m e + 1074) * 2 ^ 52 + rounded m e

theorem nearest_mono {m n : ℕ} {e : ℤ} (hm : 52 ≤ m.log2) (h : m ≤ n) :
    nearest m e ≤ nearest n e := by
  have hn : 52 ≤ n.log2 := by
    rw [Nat.log2_eq_log_two] at hm ⊢
    exact hm.trans (Nat.log_mono_right h)
  have hgrid : grid m e ≤ grid n e := grid_mono h
  rcases hgrid.eq_or_lt with heq | hlt
  · have hr := rounded_mono h heq
    simp only [nearest, heq]
    omega
  · -- What is rounded up to the end of one grid does not pass the beginning of the next.
    have hlow : -1074 ≤ grid m e := by
      simp only [grid]
      omega
    have hle : rounded m e ≤ 2 ^ 53 := rounded_le
    have hge : 2 ^ 52 ≤ rounded n e := le_rounded hn (hlow.trans_lt hlt)
    simp only [nearest]
    omega

theorem nearest_shiftLeft {m : ℕ} (hm : m ≠ 0) (e : ℤ) (j : ℕ) (hlow : e ≤ grid m e) :
    nearest (m <<< j) (e - j) = nearest m e := by
  have hgrid : grid (m <<< j) (e - j) = grid m e := by
    simp only [grid, log2_shiftLeft hm]
    omega
  have hshift : (grid m e - (e - j)).toNat = j + (grid m e - e).toNat := by omega
  simp only [nearest, rounded, hgrid, hshift, whole_shiftLeft_shiftRight]

/-! ## Rounding -/

theorem shiftToTargetExponent_eq (m : ℕ) (e : ℤ) :
    UnpackedFloat.shiftToTargetExponent .binary64 m e .exact =
      (whole m >>> (grid m e - e).toNat, e + (grid m e - e).toNat) := by
  rw [UnpackedFloat.shiftToTargetExponent, targetExponent_eq]
  rfl

/-- A mantissa of the format stays where it is, unless rounding has made it one bit longer. -/
theorem shiftToTargetExponent_again {r : ℕ} {e : ℤ} (hr : r ≤ 2 ^ 53) (he : -1074 ≤ e) :
    UnpackedFloat.shiftToTargetExponent .binary64 r e .exact =
      if r = 2 ^ 53 then (whole (2 ^ 52), e + 1) else (whole r, e) := by
  rw [shiftToTargetExponent_eq]
  split
  next htop =>
    subst htop
    have hgrid : grid (2 ^ 53) e = e + 1 := by
      simp only [grid, Nat.log2_two_pow]
      omega
    rw [hgrid, show (e + 1 - e).toNat = 1 by omega]
    rfl
  next htop =>
    have hlog : r.log2 ≤ 52 := by
      by_cases hz : r = 0
      · simp [hz]
      · have hlt := (Nat.log2_lt hz).mpr (show r < 2 ^ 53 by omega)
        omega
    have hzero : (grid r e - e).toNat = 0 := by
      simp only [grid]
      omega
    rw [hzero, Int.natCast_zero, Int.add_zero]
    rfl

theorem roundWithAccuracy_eq (s : Sign) {m : ℕ} {e : ℤ} (hm : 52 ≤ m.log2) :
    UnpackedFloat.roundWithAccuracy .binary64 s m e .exact =
      if h : rounded m e = 0 then .zero s
      else if rounded m e = 2 ^ 53 then .finite s (2 ^ 52) (grid m e + 1) (by decide)
      else .finite s (rounded m e) (grid m e) (Nat.pos_of_ne_zero h) := by
  have hgrid : e + (grid m e - e).toNat = grid m e ∧ -1074 ≤ grid m e := by
    simp only [grid]
    omega
  have hfirst : (UnpackedFloat.shiftToTargetExponent .binary64 m e .exact).1.roundedMantissa =
      rounded m e := by
    rw [shiftToTargetExponent_eq]
    rfl
  have hexponent : (UnpackedFloat.shiftToTargetExponent .binary64 m e .exact).2 = grid m e := by
    rw [shiftToTargetExponent_eq]
    exact hgrid.1
  have hagain := shiftToTargetExponent_again (rounded_le (m := m) (e := e)) hgrid.2
  by_cases htop : rounded m e = 2 ^ 53
  · rw [if_pos htop, htop] at hagain
    simp only [UnpackedFloat.roundWithAccuracy, hfirst, hexponent, hagain, whole_mantissa, htop]
    rfl
  · rw [if_neg htop] at hagain
    simp only [UnpackedFloat.roundWithAccuracy, hfirst, hexponent, hagain, whole_mantissa,
      if_neg htop]

/-- What is rounded keeps its sign, and goes to the nearest place. -/
theorem roundWithAccuracy_place (s : Sign) {m : ℕ} {e : ℤ} (hm : 52 ≤ m.log2) :
    let u := UnpackedFloat.roundWithAccuracy .binary64 s m e .exact
    signOf u = s ∧ Canonical u ∧ magnitude u = nearest m e := by
  intro u
  have hlow : -1074 ≤ grid m e := by
    simp only [grid]
    omega
  have hr : rounded m e ≤ 2 ^ 53 := rounded_le
  have hbits : -1074 < grid m e → 2 ^ 52 ≤ rounded m e := le_rounded hm
  simp only [u, roundWithAccuracy_eq s hm]
  split_ifs with hz htop
  · refine ⟨rfl, trivial, ?_⟩
    simp only [magnitude, nearest]
    omega
  · refine ⟨rfl, ⟨by decide, by omega, .inl le_rfl⟩, ?_⟩
    simp only [magnitude, nearest]
    omega
  · exact ⟨rfl, ⟨by omega, hlow, by omega⟩, rfl⟩

end BuildAdvisor.Double
