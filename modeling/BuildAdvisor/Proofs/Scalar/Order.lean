import BuildAdvisor.Proofs.Scalar.Storing
import BuildAdvisor.Scalar.Rational

/-!
The order that distances are compared in.

* `Scalar.Ordered` — finite numbers stand in a line, and a sum of squares is not below zero, if it
  is a number at all;
* `Double.lineKey` — the place of a finite double in the line: its sign, then its exponent, then its
  mantissa;
* `NotNegative` — doubles that are not below zero, undefined ones included; squares are among them,
  and sums do not lead out of them;
* the instances for doubles and for exact rationals.
-/

set_option autoImplicit false

namespace BuildAdvisor

/-- Two numbers that are not below each other count as equally far, as the two zeros do.  Only
finite numbers are compared with a third one. -/
class Scalar.Ordered (α : Type) [Scalar α] : Prop where
  lt_asymm : ∀ {a b : α}, a < b → ¬ b < a
  lt_or_lt : ∀ {a b c : α}, Scalar.isFinite a = true → Scalar.isFinite b = true →
    Scalar.isFinite c = true → a < c → a < b ∨ b < c
  not_negZero_lt : ¬ (-0.0 : α) < 0.0
  not_add_square_lt : ∀ {a : α} (d : α), ¬ a < 0.0 → ¬ a + d * d < 0.0
  isFinite_of_lt : ∀ {a b : α}, ¬ a < 0.0 → a < b → Scalar.isFinite b = true →
    Scalar.isFinite a = true

namespace Double

open Float.Model (Format UnpackedFloat)

/-! ## The line of finite doubles -/

/-- Both zeros have the same place. -/
def lineKey : UnpackedFloat → ℤ ×ₗ ℤ ×ₗ ℤ
  | .finite .positive m e _ => toLex (1, toLex (e, (m : ℤ)))
  | .finite .negative m e _ => toLex (-1, toLex (-e, -(m : ℤ)))
  | _ => toLex (0, toLex (0, 0))

theorem compare_eq_lt_iff {a b : UnpackedFloat} (ha : a.isFinite = true) (hb : b.isFinite = true) :
    a.compare b = some .lt ↔ lineKey a < lineKey b := by
  cases a with
  | notANumber => cases ha
  | infinity s => cases ha
  | zero s =>
    cases b with
    | notANumber => cases hb
    | infinity t => cases hb
    | zero t => simp [UnpackedFloat.compare, lineKey]
    | finite t n f hn => cases t <;> simp [UnpackedFloat.compare, lineKey, Prod.Lex.toLex_lt_toLex]
  | finite s m e hm =>
    cases b with
    | notANumber => cases hb
    | infinity t => cases hb
    | zero t => cases s <;> simp [UnpackedFloat.compare, lineKey, Prod.Lex.toLex_lt_toLex]
    | finite t n f hn =>
      cases s <;> cases t <;>
        simp [UnpackedFloat.compare, lineKey, Prod.Lex.toLex_lt_toLex, Ordering.then_eq_lt,
          Ordering.then_eq_gt, compare_lt_iff_lt, compare_gt_iff_gt]

theorem lt_iff_lineKey {x y : Float} (hx : x.isFinite = true) (hy : y.isFinite = true) :
    x < y ↔ lineKey x.toModel.unpack < lineKey y.toModel.unpack :=
  lt_iff_compare.trans (compare_eq_lt_iff hx hy)

theorem lt_asymm {x y : Float} (h : x < y) : ¬ y < x := by
  rw [lt_iff_compare] at h ⊢
  rw [compare_swap x.toModel.unpack, h]
  simp

/-! ## Doubles that are not below zero -/

def NotNegative : UnpackedFloat → Prop
  | .infinity .negative => False
  | .finite .negative _ _ _ => False
  | _ => True

theorem not_lt_zero_iff_notNegative {x : Float} : ¬ x < 0.0 ↔ NotNegative x.toModel.unpack := by
  rw [lt_iff_compare, unpack_zero]
  cases x.toModel.unpack with
  | notANumber => simp [UnpackedFloat.compare, NotNegative]
  | zero s => simp [UnpackedFloat.compare, NotNegative]
  | infinity s => cases s <;> simp [UnpackedFloat.compare, NotNegative]
  | finite s m e hm => cases s <;> simp [UnpackedFloat.compare, NotNegative]

theorem notNegative_packComponents (e : BitVec Format.binary64.exponentBits)
    (m : BitVec Format.binary64.mantissaBitsWithoutImplicit) :
    NotNegative (.unpack .binary64 (UnpackedFloat.packComponents .binary64 .positive e m)) := by
  have hsign := sign_packComponents .positive e m
  simp only [UnpackedFloat.unpack, hsign]
  split_ifs <;> trivial

theorem notNegative_unpack_pack {u : UnpackedFloat} (h : NotNegative u) :
    NotNegative (.unpack .binary64 (UnpackedFloat.pack .binary64 u)) := by
  cases u with
  | notANumber =>
    rw [UnpackedFloat.pack.eq_def, UnpackedFloat.unpack_packedNaN]
    trivial
  | zero s =>
    rw [UnpackedFloat.pack.eq_def, UnpackedFloat.unpack_packedZero]
    trivial
  | infinity s =>
    cases s with
    | negative => cases h
    | positive => exact notNegative_packComponents _ _
  | finite s m e hm =>
    cases s with
    | negative => cases h
    | positive =>
      simp only [UnpackedFloat.pack]
      split_ifs <;> exact notNegative_packComponents _ _

theorem notNegative_roundWithAccuracy (m : ℕ) (e : ℤ) (accuracy : UnpackedFloat.Accuracy) :
    NotNegative (.roundWithAccuracy .binary64 .positive m e accuracy) := by
  simp only [UnpackedFloat.roundWithAccuracy]
  split_ifs <;> trivial

theorem notNegative_mul_self (u : UnpackedFloat) : NotNegative (.mul .binary64 u u) := by
  cases u with
  | notANumber => trivial
  | zero s => cases s <;> trivial
  | infinity s => cases s <;> trivial
  | finite s m e hm => cases s <;> exact notNegative_roundWithAccuracy _ _ _

theorem notNegative_add {u v : UnpackedFloat} (hu : NotNegative u) (hv : NotNegative v) :
    NotNegative (.add .binary64 u v) := by
  cases u with
  | notANumber => trivial
  | zero s =>
    cases v with
    | zero t => cases s <;> cases t <;> trivial
    | _ => exact hv
  | infinity s =>
    cases v with
    | infinity t => cases s <;> cases t <;> trivial
    | notANumber => trivial
    | _ => exact hu
  | finite s m e hm =>
    cases v with
    | finite t n f hn =>
      cases s with
      | negative => cases hu
      | positive =>
        cases t with
        | negative => cases hv
        | positive =>
          -- The mantissas are brought to one exponent and added, which gives a positive number.
          simp only [UnpackedFloat.add, UnpackedFloat.normalize, UnpackedFloat.Sign.apply]
          split
          next hlt =>
            rw [compare_lt_iff_lt] at hlt
            omega
          next => trivial
          next => exact notNegative_roundWithAccuracy _ _ _
    | notANumber => trivial
    | infinity t => exact hv
    | zero t => exact hu

theorem not_add_square_lt {a : Float} (d : Float) (h : ¬ a < 0.0) : ¬ a + d * d < 0.0 := by
  rw [not_lt_zero_iff_notNegative] at h ⊢
  have hsquare : NotNegative (d * d).toModel.unpack :=
    notNegative_unpack_pack (notNegative_mul_self d.toModel.unpack)
  exact notNegative_unpack_pack (notNegative_add h hsquare)

theorem isFinite_of_lt {a b : Float} (ha : ¬ a < 0.0) (hlt : a < b) (hb : b.isFinite = true) :
    a.isFinite = true := by
  rw [not_lt_zero_iff_notNegative] at ha
  rw [lt_iff_compare] at hlt
  change b.toModel.unpack.isFinite = true at hb
  change a.toModel.unpack.isFinite = true
  cases hu : a.toModel.unpack with
  | zero s => rfl
  | finite s m e hm => rfl
  | notANumber =>
    rw [hu] at hlt
    cases hlt
  | infinity s =>
    rw [hu] at ha hlt
    cases s with
    | negative => cases ha
    | positive =>
      cases hv : b.toModel.unpack with
      | infinity t =>
        rw [hv] at hb
        cases hb
      | _ =>
        rw [hv] at hlt
        cases hlt

instance : Scalar.Ordered Float where
  lt_asymm := lt_asymm
  lt_or_lt := by
    intro a b c ha hb hc h
    have hac := (lt_iff_lineKey ha hc).mp h
    rcases lt_or_ge (lineKey a.toModel.unpack) (lineKey b.toModel.unpack) with hab | hba
    · exact .inl ((lt_iff_lineKey ha hb).mpr hab)
    · exact .inr ((lt_iff_lineKey hb hc).mpr (hba.trans_lt hac))
  not_negZero_lt := by decide
  not_add_square_lt := not_add_square_lt
  isFinite_of_lt := isFinite_of_lt

end Double

namespace Rational

instance : Scalar.Ordered Rat where
  lt_asymm := fun h => not_lt.mpr h.le
  lt_or_lt := by
    intro a b c _ _ _ h
    rcases lt_or_ge a b with hab | hba
    · exact .inl hab
    · exact .inr (hba.trans_lt h)
  not_negZero_lt := by norm_num
  not_add_square_lt := by
    intro a d h
    norm_num at h ⊢
    exact add_nonneg h (mul_self_nonneg d)
  isFinite_of_lt := fun _ _ _ => rfl

end Rational

end BuildAdvisor
