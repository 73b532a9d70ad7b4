import BuildAdvisor.Scalar.Double
import Mathlib

/-!
What comparing and adding doubles comes to, where no rounding is involved.

* `not_lt_iff`, `not_le_iff` — a comparison that fails holds the other way round, unless a side is
  undefined;
* `negZero_add` — minus zero is neutral, so a sum that starts from it is not changed by the start;
* `SameNumber` — equality that knows one zero; the two zeros differ in nothing else when something
  is subtracted from them (`sameNumber_zero_sub`).
-/

set_option autoImplicit false

namespace BuildAdvisor.Double

open Float.Model (UnpackedFloat)

/-! ## Comparison -/

theorem then_swap (m n : ℕ) (e f : ℤ) :
    ((compare e f).then (compare m n)).swap = (compare f e).then (compare n m) := by
  rw [Ordering.swap_then, ← Std.OrientedCmp.eq_swap, ← Std.OrientedCmp.eq_swap]

theorem compare_swap (a b : UnpackedFloat) : b.compare a = (a.compare b).map Ordering.swap := by
  cases a with
  | notANumber => cases b <;> rfl
  | infinity s =>
    cases b with
    | infinity t => cases s <;> cases t <;> rfl
    | _ => cases s <;> rfl
  | zero s =>
    cases b with
    | infinity t => cases t <;> rfl
    | finite t n f hn => cases t <;> rfl
    | _ => rfl
  | finite s m e hm =>
    cases b with
    | finite t n f hn => cases s <;> cases t <;> simp [UnpackedFloat.compare, ← then_swap m n]
    | infinity t => cases s <;> cases t <;> rfl
    | _ => cases s <;> rfl

theorem compare_eq_none_iff (a b : UnpackedFloat) :
    a.compare b = none ↔ a.isNaN = true ∨ b.isNaN = true := by
  rw [UnpackedFloat.isNaN_iff, UnpackedFloat.isNaN_iff]
  fun_cases UnpackedFloat.compare a b
  all_goals simp_all

section Order

variable {x y : Float}

theorem lt_iff_compare : x < y ↔ x.toModel.unpack.compare y.toModel.unpack = some .lt := by
  change decide (x.toModel < y.toModel) = true ↔ _
  rw [decide_eq_true_iff]
  exact beq_iff_eq

theorem le_iff_compare :
    x ≤ y ↔ ∃ o, x.toModel.unpack.compare y.toModel.unpack = some o ∧ o.isLE = true := by
  change decide (x.toModel ≤ y.toModel) = true ↔ _
  rw [decide_eq_true_iff]
  exact Option.any_eq_true _ _

theorem isNaN_or_iff_compare :
    x.isNaN = true ∨ y.isNaN = true ↔ x.toModel.unpack.compare y.toModel.unpack = none :=
  (compare_eq_none_iff _ _).symm

theorem not_lt_iff : ¬ x < y ↔ y ≤ x ∨ x.isNaN = true ∨ y.isNaN = true := by
  rw [lt_iff_compare, le_iff_compare, isNaN_or_iff_compare, compare_swap x.toModel.unpack]
  cases x.toModel.unpack.compare y.toModel.unpack with
  | none => simp
  | some o => cases o <;> simp

theorem not_le_iff : ¬ x ≤ y ↔ y < x ∨ x.isNaN = true ∨ y.isNaN = true := by
  rw [lt_iff_compare, le_iff_compare, isNaN_or_iff_compare, compare_swap x.toModel.unpack]
  cases x.toModel.unpack.compare y.toModel.unpack with
  | none => simp
  | some o => cases o <;> simp

theorem le_of_lt (h : x < y) : x ≤ y :=
  le_iff_compare.mpr ⟨.lt, lt_iff_compare.mp h, rfl⟩

theorem isNaN_eq_false_of_le (h : x ≤ y) : x.isNaN = false ∧ y.isNaN = false := by
  obtain ⟨o, ho, -⟩ := le_iff_compare.mp h
  have hn := mt isNaN_or_iff_compare.mp (by rw [ho]; exact Option.some_ne_none o)
  simpa only [not_or, Bool.not_eq_true] using hn

theorem isNaN_eq_false_of_lt (h : x < y) : x.isNaN = false ∧ y.isNaN = false := by
  have hn := mt isNaN_or_iff_compare.mp (by rw [lt_iff_compare.mp h]; exact Option.some_ne_none _)
  simpa only [not_or, Bool.not_eq_true] using hn

theorem not_lt_zero_iff : ¬ x < 0.0 ↔ 0.0 ≤ x ∨ x.isNaN = true := by
  have hzero : (0.0 : Float).isNaN = false := rfl
  simp only [not_lt_iff, hzero, Bool.false_eq_true, or_false]

theorem not_le_zero_iff : ¬ x ≤ 0.0 ↔ 0.0 < x ∨ x.isNaN = true := by
  have hzero : (0.0 : Float).isNaN = false := rfl
  simp only [not_le_iff, hzero, Bool.false_eq_true, or_false]

end Order

/-! ## The two zeros -/

theorem unpack_zero : (0.0 : Float).toModel.unpack = .zero .positive := rfl

theorem unpack_negZero : (-0.0 : Float).toModel.unpack = .zero .negative := rfl

theorem pack_unpack (x : Float) : .ofModel (.pack x.toModel.unpack) = x :=
  Float.toBits_inj.mp (UInt64.toBitVec_inj.mp
    (UnpackedFloat.pack_unpack_of_valid x.toModel.valid))

theorem negZero_add (x : Float) : -0.0 + x = x := by
  have h : UnpackedFloat.add .binary64 (.zero .negative) x.toModel.unpack = x.toModel.unpack := by
    cases x.toModel.unpack with
    | zero s => cases s <;> rfl
    | _ => rfl
  change Float.ofModel (.pack (.add .binary64 (-0.0 : Float).toModel.unpack x.toModel.unpack)) = x
  rw [unpack_negZero, h, pack_unpack]

/-- Equal as numbers, where undefined values are not told apart. -/
def SameNumber (x y : Float) : Prop :=
  (x == y) = true ∨ (x.isNaN = true ∧ y.isNaN = true)

instance (x y : Float) : Decidable (SameNumber x y) :=
  inferInstanceAs (Decidable (_ ∨ _))

theorem SameNumber.refl (x : Float) : SameNumber x x := by
  by_cases h : x = .nan
  · exact .inr (by simp [h])
  · exact .inl (Float.beq_self_iff.mpr h)

/-- What is subtracted decides the difference, except that its sign may be left to the zeros. -/
theorem sameNumber_zero_sub (x : Float) : SameNumber (-0.0 - x) (0.0 - x) := by
  have hnegZero : (-0.0 : Float) - x =
      .ofModel (.pack (.sub .binary64 (.zero .negative) x.toModel.unpack)) := by
    rw [← unpack_negZero]
    rfl
  have hzero : (0.0 : Float) - x =
      .ofModel (.pack (.sub .binary64 (.zero .positive) x.toModel.unpack)) := by
    rw [← unpack_zero]
    rfl
  rw [hnegZero, hzero]
  cases x.toModel.unpack with
  | zero s => cases s <;> decide +kernel
  | _ => exact .refl _

end BuildAdvisor.Double
