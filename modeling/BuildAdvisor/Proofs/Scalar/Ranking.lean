import BuildAdvisor.Proofs.StableSort
import BuildAdvisor.Scalar.Double

/-!
Rankings by a double.

* `Outranks` — the greatest key first, and names ascending where keys are equal;
* `pairwise_outranks` — sorting a list whose names ascend by descending keys puts it into that
  order, in which no two elements are tied;
* `outranks_dropped` — what is cut off comes after all that is kept.
-/

set_option autoImplicit false

namespace BuildAdvisor.Double

variable {β : Type} (key : β → Float) (name : β → String)

/-- Keys are compared in the order of all doubles, which knows an undefined key and the sign of a
zero. -/
def Outranks (a b : β) : Prop :=
  orderKey (key b) < orderKey (key a) ∨ orderKey (key a) = orderKey (key b) ∧ name a < name b

theorem pairwise_outranks {l : List β} (h : l.Pairwise fun a b => name a < name b) :
    (l.mergeSort fun a b => Scalar.descending (key a) (key b)).Pairwise (Outranks key name) := by
  have htrans : ∀ a b c, Scalar.descending (key a) (key b) = true →
      Scalar.descending (key b) (key c) = true → Scalar.descending (key a) (key c) = true :=
    fun a b c hab hbc => Scalar.precedes_trans _ _ _ hbc hab
  have htotal : ∀ a b, (Scalar.descending (key a) (key b) ||
      Scalar.descending (key b) (key a)) = true := fun a b => Scalar.precedes_total _ _
  refine (StableSort.pairwise_mergeSort_tied htrans htotal h).imp fun {a b} hab => ?_
  obtain ⟨hle, hties⟩ := hab
  have hle := (precedes_iff (key b) (key a)).mp hle
  rcases Int.lt_or_eq_of_le hle with hlt | heq
  · exact .inl hlt
  · exact .inr ⟨heq.symm, hties ((precedes_iff (key a) (key b)).mpr (Int.le_of_eq heq.symm))⟩

variable {key name}

theorem outranks_dropped {l : List β} (h : l.Pairwise (Outranks key name)) {count : Nat} {a b : β}
    (ha : a ∈ l.take count) (hb : b ∈ l) (hnot : b ∉ l.take count) : Outranks key name a b := by
  rw [← List.take_append_drop count l] at h hb
  exact (List.pairwise_append.mp h).2.2 a ha b ((List.mem_append.mp hb).resolve_left hnot)

end BuildAdvisor.Double
