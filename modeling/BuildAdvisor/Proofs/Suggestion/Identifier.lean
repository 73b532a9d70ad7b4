import BuildAdvisor.Suggestion.Identifier
import Mathlib.Data.List.Nodup
import Mathlib.Data.List.TakeDrop

/-!
No two suggestions share an identifier.

* `numberOf_identifier` — the number can be read off an identifier, whatever dashes and digits the
  name holds, because no digit is a dash and leading zeros do not count;
* `numbers_issued` — each call takes the next number of the counter;
* `issued_distinct` — so generators that share the counter never give the same identifier, in
  whatever order they are asked, until the counter has come round.
-/

set_option autoImplicit false

namespace BuildAdvisor.Suggestion

/-! ## Reading the number -/

/-- The characters behind the last dash. -/
def afterLastDash (id : String) : List Char :=
  (id.toList.reverse.takeWhile (· != '-')).reverse

def numberOf (id : String) : Nat :=
  Nat.ofDigitChars 10 (afterLastDash id) 0

theorem ne_dash_of_mem_paddedDigits {width n : Nat} {c : Char} (h : c ∈ paddedDigits width n) :
    c ≠ '-' := by
  rw [paddedDigits, List.mem_append] at h
  rintro rfl
  rcases h with hzero | hdigit
  · exact absurd (List.eq_of_mem_replicate hzero) (by decide)
  · exact absurd (Nat.isDigit_of_mem_toDigits (by decide) (by decide) hdigit) (by decide)

theorem afterLastDash_identifier (name : String) (n : Nat) :
    afterLastDash (identifier name n) = paddedDigits 6 n := by
  have hdigits : ∀ c ∈ (paddedDigits 6 n).reverse, (c != '-') = true := fun c hc =>
    bne_iff_ne.mpr (ne_dash_of_mem_paddedDigits (List.mem_reverse.mp hc))
  have hreverse : (identifier name n).toList.reverse =
      (paddedDigits 6 n).reverse ++ '-' :: name.toList.reverse := by
    simp [identifier]
  rw [afterLastDash, hreverse, List.takeWhile_append_of_pos hdigits, List.takeWhile_cons]
  simp

theorem ofDigitChars_paddedDigits (width n : Nat) :
    Nat.ofDigitChars 10 (paddedDigits width n) 0 = n := by
  rw [paddedDigits, Nat.ofDigitChars_append, Nat.ofDigitChars_replicate_zero, Nat.mul_zero,
    Nat.ofDigitChars_ten_toDigits]

theorem numberOf_identifier (name : String) (n : Nat) : numberOf (identifier name n) = n := by
  rw [numberOf, afterLastDash_identifier, ofDigitChars_paddedDigits]

/-- The name of one generator may look like an identifier of another. -/
example : identifier "sugg-000001" 2 ≠ identifier "sugg" 1000002 := by decide +kernel

/-! ## Sharing the counter -/

section Generators

variable {ι : Type} (names : ι → Option String)

/-- A call takes the number at which the counter stands, and the calls after it begin one
further. -/
theorem issued_cons (generator : ι) (later : List ι) (counter : UInt64) :
    (issued names (generator :: later) counter).1 =
      identifier ((names generator).getD defaultName) counter.toNat ::
        (issued names later (counter + 1)).1 :=
  rfl

theorem length_issued (calls : List ι) (counter : UInt64) :
    (issued names calls counter).1.length = calls.length := by
  induction calls generalizing counter with
  | nil => rfl
  | cons generator later ih => rw [issued_cons, List.length_cons, ih, List.length_cons]

theorem numbers_issued (calls : List ι) (counter : UInt64) :
    (issued names calls counter).1.map numberOf =
      (List.range calls.length).map fun i => (counter + UInt64.ofNat i).toNat := by
  induction calls generalizing counter with
  | nil => rfl
  | cons generator later ih =>
    rw [issued_cons, List.map_cons, numberOf_identifier, ih, List.length_cons,
      List.range_succ_eq_map, List.map_cons, List.map_map]
    simp [Function.comp_def, UInt64.add_assoc, UInt64.add_comm 1]

/-- The counter comes round only after all its numbers have been given. -/
theorem counter_add_injective {counter : UInt64} {i j : Nat} (hi : i < UInt64.size)
    (hj : j < UInt64.size)
    (h : (counter + UInt64.ofNat i).toNat = (counter + UInt64.ofNat j).toNat) : i = j := by
  have heq : UInt64.ofNat i = UInt64.ofNat j :=
    (UInt64.add_right_inj counter).mp (UInt64.toNat_inj.mp h)
  have hmod := congrArg UInt64.toNat heq
  rwa [UInt64.toNat_ofNat_of_lt' hi, UInt64.toNat_ofNat_of_lt' hj] at hmod

/-- Wherever the counter stands, and however the calls of the generators follow each other. -/
theorem issued_distinct (calls : List ι) (counter : UInt64) (h : calls.length < UInt64.size) :
    (issued names calls counter).1.length = calls.length ∧
      (issued names calls counter).1.Nodup := by
  refine ⟨length_issued names calls counter, List.Nodup.of_map numberOf ?_⟩
  rw [numbers_issued]
  refine List.nodup_range.map_on ?_
  intro i hi j hj hij
  have hi := List.mem_range.mp hi
  have hj := List.mem_range.mp hj
  exact counter_add_injective (by omega) (by omega) hij

end Generators

section Example

/-- A generator without a name, and two with names that end like identifiers. -/
def dashedNames : Fin 3 → Option String
  | 0 => none
  | 1 => some "sugg-000001"
  | 2 => some "-"

theorem dashed_issued :
    [0, 1, 2, 0, 1].length < UInt64.size ∧
      (issued dashedNames [0, 1, 2, 0, 1] (UInt64.ofNat firstNumber)).1 =
        ["sugg-000001", "sugg-000001-000002", "--000003", "sugg-000004", "sugg-000001-000005"] ∧
      (issued dashedNames [0, 1, 2, 0, 1] (UInt64.ofNat firstNumber)).1.Nodup := by
  have hlen : [0, 1, 2, 0, 1].length < UInt64.size := by decide
  exact ⟨hlen, by decide +kernel,
    (issued_distinct dashedNames [0, 1, 2, 0, 1] (UInt64.ofNat firstNumber) hlen).2⟩

end Example

end BuildAdvisor.Suggestion
