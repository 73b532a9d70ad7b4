import BuildAdvisor.Table
import Mathlib.Algebra.BigOperators.Group.Finset.Basic
import Mathlib.Algebra.GroupWithZero.Nat
import Mathlib.Data.List.Induction

/-!
What a table holds, read through its keys.

* `Table.values_eq`, `Table.values_eq_map_keys` — the values are those of the keys, in the order
  of the keys, which ascend (`Table.keys_ascending`);
* `Table.ext_getD` — tables with the same keys and the same entry at each are equal;
* `Table.alter_some` — a change that always leaves an entry is an insertion;
* `Table.getD_foldl_alter`, `Table.mem_foldl_alter` — a table that takes amounts one by one holds,
  at each name, what the amounts for that name come to;
* `Names.toList_sorted` — the names of a set stand in ascending order;
* `distinct_pairwise_idxOf`, `distinct_perm`, `distinct_append_of_new`, `distinct_filter` — a list
  without its repeats keeps the order of first occurrence, which is all that it keeps beside the
  set of its elements, takes new elements at its end, and may as well be filtered afterwards;
* `fibres_perm` — a list taken piece by piece, the pieces being the elements that a function
  sends to each of some keys; `sum_fibres_weight`, `sum_fibres`, `sum_count` add such pieces up.
-/

set_option autoImplicit false

namespace BuildAdvisor

namespace Table

variable {β : Type}

theorem values_eq (t : Table β) : t.values = t.toList.map Prod.snd := by
  obtain ⟨⟨q⟩⟩ := t
  induction q using Quotient.ind with
  | _ m =>
    change m.inner.values = (Std.DTreeMap.Internal.Impl.Const.toList m.inner).map Prod.snd
    rw [Std.DTreeMap.Internal.Impl.values_eq_map_snd,
      Std.DTreeMap.Internal.Impl.Const.toList_eq_toListModel_map, List.map_map]
    rfl

theorem values_eq_map_keys (t : Table β) (fallback : β) :
    t.values = t.keys.map fun k => t.getD k fallback := by
  rw [values_eq, ← Std.ExtTreeMap.map_fst_toList_eq_keys, List.map_map]
  apply List.map_congr_left
  intro p hp
  have h : t[p.1]? = some p.2 := Std.ExtTreeMap.mem_toList_iff_getElem?_eq_some.mp hp
  simp [Std.ExtTreeMap.getD_eq_getD_getElem?, h]

theorem keys_ascending (t : Table β) : t.keys.Pairwise (· < ·) := by
  have h : t.keys.Pairwise fun a b => compare a b = .lt := Std.ExtTreeMap.ordered_keys
  exact h.imp fun hab => compareOfLessAndEq_eq_lt.mp hab

theorem mem_values_iff {t : Table β} {v : β} : v ∈ t.values ↔ ∃ k : String, t[k]? = some v := by
  rw [values_eq, List.mem_map]
  constructor
  · rintro ⟨⟨k, w⟩, h, rfl⟩
    exact ⟨k, Std.ExtTreeMap.mem_toList_iff_getElem?_eq_some.mp h⟩
  · rintro ⟨k, h⟩
    exact ⟨(k, v), Std.ExtTreeMap.mem_toList_iff_getElem?_eq_some.mpr h, rfl⟩

theorem ext_getD {t u : Table β} (fallback : β) (hmem : ∀ n : String, n ∈ t ↔ n ∈ u)
    (hget : ∀ n : String, t.getD n fallback = u.getD n fallback) : t = u := by
  apply Std.ExtTreeMap.ext_getElem?
  intro n
  by_cases hn : n ∈ t
  · have ht : t[n]? = some (t.getD n fallback) := Std.ExtTreeMap.getElem?_eq_some_getD hn
    have hu : u[n]? = some (u.getD n fallback) :=
      Std.ExtTreeMap.getElem?_eq_some_getD ((hmem n).mp hn)
    rw [ht, hu, hget n]
  · rw [Std.ExtTreeMap.getElem?_eq_none hn,
      Std.ExtTreeMap.getElem?_eq_none (fun hu => hn ((hmem n).mpr hu))]

theorem alter_some (t : Table β) (k : String) (f : Option β → β) :
    t.alter k (fun entry => some (f entry)) = t.insert k (f t[k]?) := by
  refine Std.ExtTreeMap.ext_getElem? fun n => ?_
  rw [Std.ExtTreeMap.getElem?_alter, Std.ExtTreeMap.getElem?_insert]

/-! ## Entries changed one by one -/

section Entries

variable {γ : Type} (f : β → γ → β) (start : β) (t : Table β) (entries : List (String × γ))
  (name : String)

theorem getD_foldl_alter :
    (entries.foldl (fun table p => table.alter p.1 fun y => some (f (y.getD start) p.2)) t).getD
        name start =
      ((entries.filter fun p => p.1 == name).map Prod.snd).foldl f (t.getD name start) := by
  induction entries generalizing t with
  | nil => rfl
  | cons p rest ih =>
    rw [List.foldl_cons, ih, Std.ExtTreeMap.getD_alter]
    by_cases h : p.1 = name
    · subst h
      simp [Std.ExtTreeMap.getD_eq_getD_getElem?]
    · simp [h]

theorem mem_foldl_alter :
    name ∈ entries.foldl (fun table p => table.alter p.1 fun y => some (f (y.getD start) p.2)) t ↔
      name ∈ t ∨ name ∈ entries.map Prod.fst := by
  induction entries generalizing t with
  | nil => simp
  | cons p rest ih =>
    rw [List.foldl_cons, ih, Std.ExtTreeMap.mem_alter]
    by_cases h : p.1 = name
    · simp [h]
    · simp [h, Ne.symm h]

end Entries

end Table

theorem Names.toList_sorted (t : Names) : t.toList.Pairwise (· < ·) := by
  have h : t.toList.Pairwise fun a b => compare a b = .lt := Std.ExtTreeSet.ordered_toList
  exact h.imp fun hab => compareOfLessAndEq_eq_lt.mp hab

theorem Names.toList_nodup (t : Names) : t.toList.Nodup := by
  refine t.toList_sorted.imp ?_
  rintro a b hab rfl
  exact String.lt_irrefl a hab

/-! ## Lists without repeats -/

theorem mem_distinct {xs : List String} {x : String} : x ∈ distinct xs ↔ x ∈ xs :=
  List.mem_eraseDups

theorem distinct_append_singleton (xs : List String) (x : String) :
    distinct (xs ++ [x]) = distinct xs ++ if x ∈ xs then [] else [x] := by
  rw [distinct, List.eraseDups_append]
  by_cases h : x ∈ xs <;> simp [distinct, List.removeAll, List.eraseDups_cons, h]

/-- The induction runs from the end, where an element is either dropped or put last. -/
theorem distinct_pairwise_idxOf (xs : List String) :
    (distinct xs).Pairwise fun x y => xs.idxOf x < xs.idxOf y := by
  induction xs using List.reverseRecOn with
  | nil => exact List.Pairwise.nil
  | append_singleton xs x ih =>
    have hold : ∀ y ∈ xs, (xs ++ [x]).idxOf y = xs.idxOf y := fun y hy =>
      List.idxOf_append_of_mem hy
    have hkeep : (distinct xs).Pairwise fun y z => (xs ++ [x]).idxOf y < (xs ++ [x]).idxOf z := by
      refine ih.imp_of_mem ?_
      intro y z hy hz h
      rwa [hold y (mem_distinct.mp hy), hold z (mem_distinct.mp hz)]
    rw [distinct_append_singleton]
    split
    next => rwa [List.append_nil]
    next hx =>
      refine List.pairwise_append.mpr ⟨hkeep, List.pairwise_singleton _ x, ?_⟩
      intro y hy z hz
      obtain rfl := List.mem_singleton.mp hz
      have hy := mem_distinct.mp hy
      rw [hold y hy, List.idxOf_append_of_notMem hx]
      have hlt := List.idxOf_lt_length_iff.mpr hy
      omega

theorem distinct_nodup (xs : List String) : (distinct xs).Nodup := by
  refine (distinct_pairwise_idxOf xs).imp ?_
  rintro x y h rfl
  exact Nat.lt_irrefl _ h

theorem distinct_perm {xs ys : List String} (h : ∀ x, x ∈ xs ↔ x ∈ ys) :
    (distinct xs).Perm (distinct ys) := by
  refine (List.perm_ext_iff_of_nodup (distinct_nodup xs) (distinct_nodup ys)).mpr fun x => ?_
  rw [mem_distinct, mem_distinct, h x]

theorem distinct_append_of_new (xs ys : List String) (hn : ys.Nodup) (hnew : ∀ y ∈ ys, y ∉ xs) :
    distinct (xs ++ ys) = distinct xs ++ ys := by
  induction ys using List.reverseRecOn with
  | nil => simp
  | append_singleton ys y ih =>
    obtain ⟨hys, -, hd⟩ := List.nodup_append.mp hn
    have hy : y ∉ xs ++ ys := by
      rw [List.mem_append]
      rintro (hm | hm)
      · exact hnew y (by simp) hm
      · exact hd y hm y (by simp) rfl
    rw [← List.append_assoc, distinct_append_singleton, if_neg hy,
      ih hys (fun z hz => hnew z (List.mem_append_left _ hz)), List.append_assoc]

theorem distinct_of_nodup {xs : List String} (h : xs.Nodup) : distinct xs = xs :=
  distinct_append_of_new [] xs h (by simp)

theorem distinct_filter (keep : String → Bool) (xs : List String) :
    distinct (xs.filter keep) = (distinct xs).filter keep := by
  induction xs using List.reverseRecOn with
  | nil => rfl
  | append_singleton xs x ih =>
    rw [List.filter_append, distinct_append_singleton, List.filter_append, ← ih]
    by_cases hx : keep x = true
    · have hmem : x ∈ xs.filter keep ↔ x ∈ xs := by simp [List.mem_filter, hx]
      rw [List.filter_singleton, hx, cond_true, distinct_append_singleton]
      by_cases hm : x ∈ xs <;> simp [hmem, hm, hx]
    · by_cases hm : x ∈ xs <;> simp [hm, hx]

/-! ## Lists taken piece by piece -/

section Fibres

variable {γ δ : Type} [DecidableEq γ]

theorem fibres_perm (f : δ → γ) (keys : List γ) (xs : List δ) (hk : keys.Nodup)
    (hx : ∀ x ∈ xs, f x ∈ keys) :
    (keys.flatMap fun k => xs.filter fun x => f x == k).Perm xs := by
  induction keys generalizing xs with
  | nil =>
    have hnil : xs = [] := List.eq_nil_iff_forall_not_mem.mpr fun x hm => by simpa using hx x hm
    simp [hnil]
  | cons k ks ih =>
    obtain ⟨hknot, hks⟩ := List.nodup_cons.mp hk
    -- The other pieces are cut from what is left once the piece of `k` is taken.
    have hrest : (ks.flatMap fun k' => xs.filter fun x => f x == k') =
        ks.flatMap fun k' => (xs.filter fun x => !(f x == k)).filter fun x => f x == k' := by
      apply List.flatMap_congr
      intro k' hk'
      rw [List.filter_filter]
      apply List.filter_congr
      intro x _
      by_cases h : f x = k'
      · have hne : f x ≠ k := fun he => hknot (he ▸ h ▸ hk')
        simp [h, h ▸ hne]
      · simp [h]
    have hcover : ∀ x ∈ xs.filter (fun x => !(f x == k)), f x ∈ ks := by
      intro x hm
      obtain ⟨hm, hne⟩ := List.mem_filter.mp hm
      have hne : f x ≠ k := by simpa using hne
      exact (List.mem_cons.mp (hx x hm)).resolve_left hne
    rw [List.flatMap_cons, hrest]
    exact ((ih _ hks hcover).append_left _).trans (List.filter_append_perm _ xs)

theorem sum_fibres_weight {M : Type} [AddCommMonoid M] (f : δ → γ) (weight : δ → M)
    (keys : List γ) (xs : List δ) (hk : keys.Nodup) (hx : ∀ x ∈ xs, f x ∈ keys) :
    (keys.map fun k => ((xs.filter fun x => f x == k).map weight).sum).sum =
      (xs.map weight).sum := by
  rw [← ((fibres_perm f keys xs hk hx).map weight).sum_eq, List.map_flatMap, List.flatMap_def,
    List.sum_flatten, List.map_map]
  rfl

theorem sum_fibres (f : δ → γ) (keys : List γ) (xs : List δ) (hk : keys.Nodup)
    (hx : ∀ x ∈ xs, f x ∈ keys) :
    (keys.map fun k => (xs.filter fun x => f x == k).length).sum = xs.length := by
  have h := (fibres_perm f keys xs hk hx).length_eq
  rwa [List.length_flatMap] at h

theorem sum_count (keys xs : List γ) (hk : keys.Nodup) (hx : ∀ x ∈ xs, x ∈ keys) :
    (keys.map fun k => xs.count k).sum = xs.length := by
  simpa [List.count_eq_length_filter] using sum_fibres id keys xs hk hx

end Fibres

end BuildAdvisor
