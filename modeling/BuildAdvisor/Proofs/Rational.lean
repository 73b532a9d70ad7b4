import BuildAdvisor.Scalar.Rational
import Mathlib.Algebra.Order.BigOperators.Group.List
import Mathlib.Algebra.Order.Field.Basic
import Mathlib.Data.Rat.Cast.Order
import Mathlib.Tactic.FieldSimp
import Mathlib.Tactic.NormNum

/-!
Sums and means over exact rationals.

* `sum_eq` — the sum of an analysis is the sum of the list;
* `mean_lt_one` — shares of which one is not whole are not whole on average;
* `clampUnit_bounds` — a clamped number lies between zero and one;
* a stand-in for the exponential function, and numbers as quotients, for runs on given inputs;
  both are scoped, since statements leave the two open.
-/

set_option autoImplicit false

namespace BuildAdvisor.Rational

theorem zero_literal : (0.0 : Rat) = 0 := by norm_num

theorem one_literal : (1.0 : Rat) = 1 := by norm_num

theorem sum_eq (xs : List Rat) : Scalar.sum xs = xs.sum := by
  have h : ∀ start : Rat, xs.foldl (· + ·) start = start + xs.sum := by
    induction xs with
    | nil => intro start; simp
    | cons x rest ih =>
      intro start
      rw [List.foldl_cons, ih, List.sum_cons, add_assoc]
  calc
    Scalar.sum xs = (-0.0 : Rat) + xs.sum := h _
    _ = xs.sum := by rw [zero_literal, neg_zero, zero_add]

theorem mean_lt_one {γ : Type} (xs : List γ) (share : γ → Rat) (hle : ∀ x ∈ xs, share x ≤ 1)
    (hlt : ∃ x ∈ xs, share x < 1) : (xs.map share).sum / (xs.length : Rat) < 1 := by
  have hs : (xs.map share).sum < (xs.map fun _ => (1 : Rat)).sum := List.sum_lt_sum share _ hle hlt
  have hl : (xs.map fun _ => (1 : Rat)).sum = (xs.length : Rat) := by simp
  obtain ⟨x, hx, -⟩ := hlt
  have hpos : (0 : Rat) < (xs.length : Rat) := by exact_mod_cast List.length_pos_of_mem hx
  rw [div_lt_one hpos, ← hl]
  exact hs

theorem clampUnit_bounds (x : Rat) : 0 ≤ Scalar.clampUnit x ∧ Scalar.clampUnit x ≤ 1 := by
  rw [Scalar.clampUnit, Scalar.clamp, zero_literal, one_literal]
  split_ifs with hlow hhigh
  · exact ⟨le_refl 0, zero_le_one⟩
  · exact ⟨zero_le_one, le_refl 1⟩
  · exact ⟨not_lt.mp hlow, not_lt.mp hhigh⟩

/-! ## Runs over exact rationals -/

/-- The exponential series up to its twentieth power. -/
scoped instance : Exponential Rat where
  exp x := (List.range 20).foldr (fun n rest => 1 + x / ((n : Rat) + 1) * rest) 1

scoped instance : Numeral Rat where
  plain := toString
  places _ := toString

end BuildAdvisor.Rational
