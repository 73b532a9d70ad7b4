import Mathlib.Data.List.Basic

/-!
Sorting by an order that leaves ties, and keeping what satisfies a condition.

* `mergeSort_cons_split` — where an element goes when the rest is sorted already;
* `mergeSort_eq_foldr` — so a list can be sorted element by element;
* `filter_mergeSort` — sorting and then filtering is filtering and then sorting;
* `Ahead` — elements with their places in a list, in the order in which nothing is tied;
* `exists_ranked` — a sorted list is the list of places put into that order;
* `pairwise_mergeSort_tied` — so tied elements stand as they stood before;
* `exists_kept` — what remains after sorting, filtering and cutting off: of the places that
  satisfy the condition, the first ones.
-/

set_option autoImplicit false

namespace BuildAdvisor.StableSort

section Order

variable {β : Type} {le : β → β → Bool}
  (trans : ∀ a b c, le a b = true → le b c = true → le a c = true)
  (total : ∀ a b, (le a b || le b a) = true)

include trans total

/-! ## Filters -/

theorem mergeSort_cons_split (a : β) (l : List β) :
    (a :: l).mergeSort le =
        (l.mergeSort le).filter (fun b => !le a b) ++ a :: (l.mergeSort le).filter (le a) ∧
      (l.mergeSort le).filter (fun b => !le a b) ++ (l.mergeSort le).filter (le a) =
        l.mergeSort le := by
  obtain ⟨xs, ys, hsorted, hrest, hxs⟩ := List.mergeSort_cons trans total a l
  have hys : ∀ b ∈ ys, le a b = true := by
    have hp := List.pairwise_mergeSort trans total (a :: l)
    rw [hsorted] at hp
    exact (List.pairwise_cons.mp (List.pairwise_append.mp hp).2.1).1
  have hfirst : (xs ++ ys).filter (fun b => !le a b) = xs := by
    have hnone : ys.filter (fun b => !le a b) = [] := by
      rw [List.filter_eq_nil_iff]
      intro b hb
      simp [hys b hb]
    rw [List.filter_append, List.filter_eq_self.mpr hxs, hnone, List.append_nil]
  have hlast : (xs ++ ys).filter (le a) = ys := by
    have hnone : xs.filter (le a) = [] := by
      rw [List.filter_eq_nil_iff]
      intro b hb
      simpa using hxs b hb
    rw [List.filter_append, List.filter_eq_self.mpr hys, hnone, List.nil_append]
  rw [hsorted, hrest, hfirst, hlast]
  exact ⟨rfl, rfl⟩

/-- Sorting element by element, which the kernel can evaluate. -/
theorem mergeSort_eq_foldr (l : List β) :
    l.mergeSort le =
      l.foldr (fun a sorted => sorted.filter (fun b => !le a b) ++ a :: sorted.filter (le a)) [] := by
  induction l with
  | nil => exact List.mergeSort_nil
  | cons a l ih => rw [(mergeSort_cons_split trans total a l).1, List.foldr_cons, ← ih]

theorem filter_mergeSort (keep : β → Bool) (l : List β) :
    (l.mergeSort le).filter keep = (l.filter keep).mergeSort le := by
  induction l with
  | nil => simp
  | cons a l ih =>
    have hcomm : ∀ q : β → Bool, ((l.mergeSort le).filter q).filter keep =
        ((l.filter keep).mergeSort le).filter q := by
      intro q
      rw [← ih, List.filter_filter, List.filter_filter]
      exact List.filter_congr fun b _ => Bool.and_comm _ _
    have hsplit := mergeSort_cons_split trans total a (l.filter keep)
    rw [(mergeSort_cons_split trans total a l).1, List.filter_append, hcomm, List.filter_cons,
      hcomm]
    by_cases ha : keep a = true
    · rw [if_pos ha, List.filter_cons_of_pos ha, hsplit.1]
    · -- Without `a` the two parts are the sorted list, cut where `a` would have gone.
      rw [if_neg ha, List.filter_cons_of_neg ha, hsplit.2]

end Order

/-! ## Places -/

section Places

variable {β : Type} {le : β → β → Bool}

/-- `p` comes before `q`, or they are tied and `p` stood first in the list. -/
def Ahead (le : β → β → Bool) (p q : β × Nat) : Prop :=
  le p.1 q.1 = true ∧ (le q.1 p.1 = true → p.2 < q.2)

theorem places_nodup (l : List β) : (l.zipIdx.map Prod.snd).Nodup := by
  rw [List.zipIdx_map_snd]
  exact List.nodup_range'

/-- The order of the library breaks ties by `≤`, which is `<` because no place occurs twice. -/
theorem exists_ranked (trans : ∀ a b c, le a b = true → le b c = true → le a c = true)
    (total : ∀ a b, (le a b || le b a) = true) (l : List β) :
    ∃ ranked : List (β × Nat), ranked.map Prod.fst = l.mergeSort le ∧
      ranked.Perm l.zipIdx ∧ ranked.Pairwise (Ahead le) := by
  let ranked := l.zipIdx.mergeSort (List.zipIdxLE le)
  have hperm : ranked.Perm l.zipIdx := List.mergeSort_perm _ _
  have hne : ranked.Pairwise fun p q => p.2 ≠ q.2 :=
    List.pairwise_map.mp ((hperm.map Prod.snd).nodup_iff.mpr (places_nodup l))
  have hle : ranked.Pairwise fun p q => List.zipIdxLE le p q = true :=
    List.pairwise_mergeSort (List.zipIdxLE_trans trans) (List.zipIdxLE_total total) _
  refine ⟨ranked, List.mergeSort_zipIdx, hperm, hle.imp₂ ?_ hne⟩
  intro p q hpq hne
  unfold List.zipIdxLE at hpq
  by_cases h : le p.1 q.1 = true
  · refine ⟨h, fun hq => ?_⟩
    simp only [h, hq, if_true, decide_eq_true_eq] at hpq
    omega
  · simp [h] at hpq

/-- What holds between the places of a list still holds where the sorted list leaves a tie. -/
theorem pairwise_mergeSort_tied {r : β → β → Prop}
    (trans : ∀ a b c, le a b = true → le b c = true → le a c = true)
    (total : ∀ a b, (le a b || le b a) = true) {l : List β} (h : l.Pairwise r) :
    (l.mergeSort le).Pairwise fun a b => le a b = true ∧ (le b a = true → r a b) := by
  obtain ⟨ranked, hsorted, hperm, hahead⟩ := exists_ranked trans total l
  have hplace : ∀ p ∈ ranked, l[p.2]? = some p.1 := fun p hp =>
    List.mem_zipIdx_iff_getElem?.mp (hperm.mem_iff.mp hp)
  rw [← hsorted, List.pairwise_map]
  refine hahead.imp_of_mem fun hp hq hpq => ⟨hpq.1, fun hle => ?_⟩
  obtain ⟨hi, hpi⟩ := List.getElem?_eq_some_iff.mp (hplace _ hp)
  obtain ⟨hj, hqj⟩ := List.getElem?_eq_some_iff.mp (hplace _ hq)
  rw [← hpi, ← hqj]
  exact List.pairwise_iff_getElem.mp h _ _ hi hj (hpq.2 hle)

/-- The kept places are a first part of those that satisfy the condition, so every other such
place comes after all of them. -/
theorem exists_kept (trans : ∀ a b c, le a b = true → le b c = true → le a c = true)
    (total : ∀ a b, (le a b || le b a) = true) (keep : β → Bool) (count : Nat) (l : List β) :
    ∃ kept : List (β × Nat), ((l.mergeSort le).filter keep).take count = kept.map Prod.fst ∧
      (∀ p ∈ kept, l[p.2]? = some p.1 ∧ keep p.1 = true) ∧
      (kept.map Prod.snd).Nodup ∧
      kept.Pairwise (Ahead le) ∧
      kept.length = min count (l.countP keep) ∧
      ∀ p : β × Nat, l[p.2]? = some p.1 → keep p.1 = true → p ∉ kept → ∀ q ∈ kept, Ahead le q p := by
  obtain ⟨ranked, hsorted, hperm, hahead⟩ := exists_ranked trans total l
  let chosen := ranked.filter fun p => keep p.1
  have hchosen : (l.mergeSort le).filter keep = chosen.map Prod.fst := by
    rw [← hsorted, List.filter_map]
    rfl
  have hmem : ∀ p : β × Nat, p ∈ chosen ↔ l[p.2]? = some p.1 ∧ keep p.1 = true := by
    intro p
    rw [List.mem_filter, hperm.mem_iff, List.mem_zipIdx_iff_getElem?]
  have hpairs : (chosen.take count ++ chosen.drop count).Pairwise (Ahead le) := by
    rw [List.take_append_drop]
    exact hahead.filter _
  have hlength : chosen.length = l.countP keep := by
    have hcount : chosen.length = ((l.mergeSort le).filter keep).length := by
      rw [hchosen, List.length_map]
    rw [hcount, ← List.countP_eq_length_filter]
    exact (List.mergeSort_perm l le).countP_eq _
  obtain ⟨hkept, -, hacross⟩ := List.pairwise_append.mp hpairs
  refine ⟨chosen.take count, ?_, ?_, ?_, hkept, ?_, ?_⟩
  · rw [hchosen, List.map_take]
  · exact fun p hp => (hmem p).mp (List.mem_of_mem_take hp)
  · have hsub : (chosen.take count).Sublist ranked :=
      (List.take_sublist _ _).trans List.filter_sublist
    exact ((hperm.map Prod.snd).nodup_iff.mpr (places_nodup l)).sublist (hsub.map Prod.snd)
  · rw [List.length_take, hlength]
  · intro p hp hk hnot q hq
    have hin : p ∈ chosen.take count ++ chosen.drop count := by
      rw [List.take_append_drop]
      exact (hmem p).mpr ⟨hp, hk⟩
    exact hacross q hq p ((List.mem_append.mp hin).resolve_left hnot)

end Places

end BuildAdvisor.StableSort
