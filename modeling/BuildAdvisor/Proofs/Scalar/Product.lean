import BuildAdvisor.Proofs.Scalar.Place

/-!
Multiplying doubles by a count keeps their order.

* `mul_form`, `nearest_mul_mono` — the sign and the magnitude of a product whose left factor is
  positive and in normal form;
* `place_mul_mono` — such a factor keeps the order of places;
* `UpTo`, `upTo_cast` — counts that fit a machine word are such factors;
* `count_mul_le_mul` — so a comparison may be multiplied by them on both sides.
-/

set_option autoImplicit false

namespace BuildAdvisor.Double

open Float.Model (UnpackedFloat)
open Float.Model.UnpackedFloat (Sign)

/-! ## Products -/

section Product

variable {k : ℕ} {f : ℤ} (hk : 0 < k)

theorem log2_mul_le {m : ℕ} (hk52 : k.log2 = 52) (hm : 0 < m) : 52 ≤ (k * m).log2 := by
  rw [← hk52, Nat.log2_eq_log_two, Nat.log2_eq_log_two]
  exact Nat.log_mono_right (Nat.le_mul_of_pos_right k hm)

/-- The factor is positive and not infinite, so the product has the sign of the other one. -/
theorem mul_form {a : UnpackedFloat} (hk52 : k.log2 = 52) (ha : Canonical a) :
    let u := UnpackedFloat.mul .binary64 (.finite .positive k f hk) a
    signOf u = signOf a ∧ Canonical u := by
  intro u
  cases a with
  | notANumber => cases ha
  | infinity s => cases s <;> exact ⟨rfl, trivial⟩
  | zero s => cases s <;> exact ⟨rfl, trivial⟩
  | finite s m e hm =>
    obtain ⟨hsign, hcanonical, -⟩ :=
      roundWithAccuracy_place (.positive * s) (e := f + e) (log2_mul_le hk52 hm)
    exact ⟨hsign.trans (by cases s <;> rfl), hcanonical⟩

include hk in
theorem nearest_mul_mono {m n : ℕ} {e e' : ℤ} (hk52 : k.log2 = 52) {s t : Sign} {hm : 0 < m}
    {hn : 0 < n} (ha : Canonical (.finite s m e hm)) (hb : Canonical (.finite t n e' hn))
    (h : magnitude (.finite s m e hm) ≤ magnitude (.finite t n e' hn)) :
    nearest (k * m) (f + e) ≤ nearest (k * n) (f + e') := by
  obtain ⟨hm53, he, hme⟩ := ha
  obtain ⟨hn53, he', hne⟩ := hb
  simp only [magnitude] at h
  obtain ⟨j, rfl⟩ : ∃ j : ℕ, e' = e + j := ⟨(e' - e).toNat, by omega⟩
  have hlog := log2_mul_le hk52 hn
  have hle : k * m ≤ (k * n) <<< j := by
    rw [Nat.shiftLeft_eq, Nat.mul_assoc]
    refine Nat.mul_le_mul_left k ?_
    rcases Nat.eq_zero_or_pos j with rfl | hj
    · rw [Nat.pow_zero, Nat.mul_one]
      omega
    · have htwo : 2 ≤ 2 ^ j := by simpa using Nat.pow_le_pow_right Nat.two_pos hj
      have hdouble : n * 2 ≤ n * 2 ^ j := Nat.mul_le_mul_left n htwo
      omega
  have hgrid : f + (e + j) ≤ grid (k * n) (f + (e + j)) := by
    simp only [grid]
    omega
  rw [← nearest_shiftLeft (Nat.mul_pos hk hn).ne' _ j hgrid, show f + (e + j) - j = f + e by omega]
  exact nearest_mono (log2_mul_le hk52 hm) hle

theorem magnitude_mul_mono {a b : UnpackedFloat} (hk52 : k.log2 = 52) (ha : IsDouble a)
    (hb : IsDouble b) (h : magnitude a ≤ magnitude b) :
    magnitude (stored (.mul .binary64 (.finite .positive k f hk) a)) ≤
      magnitude (stored (.mul .binary64 (.finite .positive k f hk) b)) := by
  obtain ⟨-, hca⟩ := mul_form hk hk52 (f := f) ha.1
  obtain ⟨-, hcb⟩ := mul_form hk hk52 (f := f) hb.1
  rw [(place_stored hca).2.1, (place_stored hcb).2.1]
  have hlow := magnitude_nonneg hcb
  cases a with
  | notANumber => cases ha.1
  | infinity s =>
    cases b with
    | notANumber => cases hb.1
    | infinity t => exact le_rfl
    | zero t =>
      change (0x7ff0000000000000 : ℤ) ≤ 0 at h
      omega
    | finite t n e' hn => exact absurd h (not_le.mpr (hb.2 rfl))
  | zero s =>
    change min 0 _ ≤ _
    omega
  | finite s m e hm =>
    cases b with
    | notANumber => cases hb.1
    | infinity t => exact min_le_right _ _
    | zero t => exact absurd h (not_le.mpr (magnitude_pos ha.1))
    | finite t n e' hn =>
      have hm52 := log2_mul_le (k := k) hk52 hm
      have hn52 := log2_mul_le (k := k) hk52 hn
      refine min_le_min_right _ ?_
      simp only [UnpackedFloat.mul, (roundWithAccuracy_place _ hm52).2.2,
        (roundWithAccuracy_place _ hn52).2.2]
      exact nearest_mul_mono hk hk52 ha.1 hb.1 h

theorem place_mul_mono {a b : UnpackedFloat} (hk52 : k.log2 = 52) (ha : IsDouble a)
    (hb : IsDouble b) (h : place a ≤ place b) :
    place (stored (.mul .binary64 (.finite .positive k f hk) a)) ≤
      place (stored (.mul .binary64 (.finite .positive k f hk) b)) := by
  obtain ⟨hsa, hca⟩ := mul_form hk hk52 (f := f) ha.1
  obtain ⟨hsb, hcb⟩ := mul_form hk hk52 (f := f) hb.1
  have hmono : ∀ {u v : UnpackedFloat}, IsDouble u → IsDouble v → magnitude u ≤ magnitude v → _ :=
    magnitude_mul_mono hk hk52 (f := f)
  have hnonneg : ∀ {u : UnpackedFloat}, Canonical u → 0 ≤ magnitude (stored u) := by
    intro u hu
    have hlow := magnitude_nonneg hu
    rw [(place_stored hu).2.1]
    omega
  have hla := magnitude_nonneg ha.1
  have hlb := magnitude_nonneg hb.1
  have hpa := hnonneg hca
  have hpb := hnonneg hcb
  simp only [place, (place_stored hca).1, (place_stored hcb).1, hsa, hsb] at h ⊢
  cases hs : signOf a <;> cases ht : signOf b <;> simp only [hs, ht, Sign.apply] at h ⊢
  · exact neg_le_neg (hmono hb ha (neg_le_neg_iff.mp h))
  · omega
  · -- Both are zero.
    have hzero : IsDouble (.zero .positive) := ⟨trivial, fun _ => by decide⟩
    have hza := hmono ha hzero (show magnitude a ≤ 0 by omega)
    have hzb := hmono hb hzero (show magnitude b ≤ 0 by omega)
    have hproduct : magnitude (stored (.mul .binary64 (.finite .positive k f hk)
        (.zero .positive))) = 0 := congrArg magnitude (stored_zero .positive)
    omega
  · exact hmono ha hb h

end Product

/-! ## Counts -/

/-- Positive numbers from one on, in normal form and with a bound on the exponent. -/
def UpTo (top : ℤ) : UnpackedFloat → Prop
  | .finite .positive m e _ => m.log2 = 52 ∧ -52 ≤ e ∧ e ≤ top
  | _ => False

section UpTo

variable {top : ℤ} {m : ℕ} {e : ℤ}

theorem upTo_roundWithAccuracy (hm : 52 ≤ m.log2) (he : 0 ≤ e + m.log2)
    (htop : m.log2 + e ≤ top + 51) :
    UpTo top (.roundWithAccuracy .binary64 .positive m e .exact) := by
  have hgrid : grid m e = m.log2 + e - 52 := by
    simp only [grid]
    omega
  have hlow := le_rounded (e := e) hm (by omega)
  have hhigh : rounded m e ≤ 2 ^ 53 := rounded_le
  rw [roundWithAccuracy_eq .positive hm]
  split_ifs with hz hcarry
  · omega
  · exact ⟨Nat.log2_two_pow, by omega, by omega⟩
  · exact ⟨(Nat.log2_eq_iff hz).mpr ⟨hlow, by omega⟩, by omega, by omega⟩

theorem upTo_stored {u : UnpackedFloat} (h : UpTo top u) (htop : top ≤ 971) :
    UpTo top (stored u) := by
  cases u with
  | finite s m e hm =>
    cases s with
    | negative => cases h
    | positive =>
      obtain ⟨hlow, hhigh⟩ := (Nat.log2_eq_iff hm.ne').mp h.1
      rwa [stored_normal .positive hm hlow hhigh ⟨by have := h.2.1; omega, h.2.2.trans htop⟩]
  | _ => cases h

theorem upTo_mul_one {u : UnpackedFloat} (h : UpTo top u) :
    UpTo (top + 1) (.mul .binary64 u one) := by
  cases u with
  | finite s m e hm =>
    cases s with
    | negative => cases h
    | positive =>
      obtain ⟨hlog, hlow, hhigh⟩ := h
      rw [mul_one_eq_round]
      apply upTo_roundWithAccuracy <;> rw [log2_shiftLeft hm.ne'] <;> omega
  | _ => cases h

/-- A count that fits a machine word is a positive double far below the infinities. -/
theorem upTo_cast {n : ℕ} (hn : 0 < n) (h : n < UInt64.size) :
    UpTo 14 (Float.ofNat n).toModel.unpack := by
  have hlog : n.log2 < 64 := (Nat.log2_lt hn.ne').mpr h
  rw [unpack_cast]
  split
  next =>
    obtain ⟨m, e, hm, he, hround⟩ := ofNat_eq_round hn
    have hone : UpTo 13 (stored (.ofNat .binary64 n)) := by
      rw [hround]
      exact upTo_stored (upTo_roundWithAccuracy hm (by omega) (by omega)) (by decide)
    exact upTo_stored (upTo_mul_one hone) (by decide)
  next =>
    obtain ⟨m, e, hm, he, hround⟩ := ofScientific_eq_round hn
    rw [hround]
    exact upTo_stored (upTo_roundWithAccuracy hm (by omega) (by omega)) (by decide)

end UpTo

/-- Multiplied by a count, doubles keep their order, also where the products are rounded. -/
theorem count_mul_le_mul {n : ℕ} (hn : 0 < n) (hsize : n < UInt64.size) {x y : Float} (h : x ≤ y) :
    Float.ofNat n * x ≤ Float.ofNat n * y := by
  obtain ⟨hx, hy⟩ := isNaN_eq_false_of_le h
  have hproduct : ∀ z : Float, (Float.ofNat n * z).toModel.unpack =
      stored (.mul .binary64 (Float.ofNat n).toModel.unpack z.toModel.unpack) := fun _ => rfl
  have hcount := upTo_cast hn hsize
  cases hu : (Float.ofNat n).toModel.unpack with
  | finite s k f hk =>
    rw [hu] at hcount
    cases s with
    | negative => cases hcount
    | positive =>
      have hform : ∀ {z : Float}, z.isNaN = false → (Float.ofNat n * z).isNaN = false := by
        intro z hz
        obtain ⟨-, hc⟩ := mul_form hk hcount.1 (f := f) (isDouble_unpack hz).1
        change (Float.ofNat n * z).toModel.unpack.isNaN = false
        rw [hproduct, hu]
        exact (place_stored hc).2.2
      rw [le_iff_place (hform hx) (hform hy), hproduct, hproduct, hu]
      exact place_mul_mono hk hcount.1 (isDouble_unpack hx) (isDouble_unpack hy)
        ((le_iff_place hx hy).mp h)
  | _ =>
    rw [hu] at hcount
    cases hcount

end BuildAdvisor.Double
