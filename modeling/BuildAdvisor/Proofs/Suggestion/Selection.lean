import BuildAdvisor.Decimal.Layout
import BuildAdvisor.Proofs.Scalar.Place
import BuildAdvisor.Proofs.Suggestion.Ranking

/-!
Selecting from a list in place, once and again.

* `select_select` — a selection is ranked already, so a second one only filters and cuts it;
* `select_again` — with the same arguments it changes nothing;
* `Thresholds.both` — one pair of thresholds for two, which a suggestion meets if it meets both
  (`meets_both`); an undefined threshold is met by nothing;
* `selectBest_eq_ok_iff`, `selectBest_eq_error_iff` — the best suggestion is the first of those
  selected, and there is none exactly if nothing is selected;
* `selectBest_isGreatest` — no suggestion that meets the thresholds has a higher score;
* `selectBest_replaces` — what the list becomes and what is returned, by one call and by two.
-/

set_option autoImplicit false

namespace BuildAdvisor.Suggestion

/-! ## Selecting again -/

section Again

variable {α : Type} [Scalar α] (t : Thresholds α) (count : Nat) (suggestions : List (Suggestion α))

theorem rank_of_sublist {kept : List (Suggestion α)} (h : kept.Sublist (rank suggestions)) :
    rank kept = kept :=
  List.mergeSort_of_pairwise
    ((List.pairwise_mergeSort ranksBefore_trans ranksBefore_total suggestions).sublist h)

theorem select_sublist : (select t count suggestions).Sublist (rank suggestions) :=
  (List.take_sublist count _).trans List.filter_sublist

theorem select_select (t' : Thresholds α) (count' : Nat) :
    select t' count' (select t count suggestions) =
      ((select t count suggestions).filter (meets t')).take count' := by
  rw [select, rank_of_sublist suggestions (select_sublist t count suggestions)]

theorem select_again :
    select t count (select t count suggestions) = select t count suggestions := by
  have hmeets : (select t count suggestions).filter (meets t) = select t count suggestions :=
    List.filter_eq_self.mpr fun _ hs => (mem_select hs).2
  have hlength : (select t count suggestions).length ≤ count := List.length_take_le count _
  rw [select_select, hmeets, List.take_of_length_le hlength]

variable {t count suggestions}

/-- Nothing is cut off where no more suggestions meet the thresholds than may be kept. -/
theorem select_of_countP_le (h : suggestions.countP (meets t) ≤ count) :
    select t count suggestions = (rank suggestions).filter (meets t) := by
  have hperm : (rank suggestions).Perm suggestions := List.mergeSort_perm _ _
  apply List.take_of_length_le
  rwa [← List.countP_eq_length_filter, hperm.countP_eq]

theorem select_select_of_countP_le (h : suggestions.countP (meets t) ≤ count)
    {t' both : Thresholds α} (hboth : ∀ s, meets both s = (meets t s && meets t' s))
    (count' : Nat) :
    select t' count' (select t count suggestions) = select both count' suggestions := by
  have hfilter : meets both = fun s => meets t' s && meets t s := by
    funext s
    rw [hboth, Bool.and_comm]
  rw [select_select, select_of_countP_le h, List.filter_filter, select, hfilter]

theorem head_ranksBefore {best : Suggestion α}
    (h : (select t count suggestions).head? = some best) {s : Suggestion α} (hs : s ∈ suggestions)
    (hm : meets t s = true) : s = best ∨ ranksBefore best s = true := by
  rw [select_eq_rank_filter, List.head?_take] at h
  split at h
  · cases h
  · obtain ⟨rest, hrest⟩ := List.head?_eq_some_iff.mp h
    have hpairs : (rank (suggestions.filter (meets t))).Pairwise fun s u => ranksBefore s u = true :=
      List.pairwise_mergeSort ranksBefore_trans ranksBefore_total _
    have hmem : s ∈ rank (suggestions.filter (meets t)) :=
      mem_rank_iff.mpr (List.mem_filter.mpr ⟨hs, hm⟩)
    rw [hrest] at hpairs hmem
    exact (List.mem_cons.mp hmem).imp_right fun hrest => (List.pairwise_cons.mp hpairs).1 s hrest

end Again

/-! ## Two pairs of thresholds -/

section Both

variable {α : Type} [Scalar α]

/-- The greater of two bounds, or one that is undefined. -/
def stricter (a b : α) : α :=
  if a ≤ b ∨ Scalar.isNaN b = true then b else a

def Thresholds.both (t u : Thresholds α) : Thresholds α :=
  ⟨stricter t.confidence u.confidence, stricter t.savings u.savings⟩

theorem stricter_le_iff {a b x : Float} : stricter a b ≤ x ↔ a ≤ x ∧ b ≤ x := by
  have hundefined : ∀ {y : Float}, y.isNaN = true → ¬ y ≤ x := fun hy hle =>
    Bool.false_ne_true ((Double.isNaN_eq_false_of_le hle).1.symm.trans hy)
  rw [stricter]
  split
  next h =>
    refine ⟨fun hb => ⟨?_, hb⟩, And.right⟩
    rcases h with hab | hb'
    · exact Double.le_trans_of_le hab hb
    · exact absurd hb (hundefined hb')
  next h =>
    obtain ⟨hab, hb'⟩ := not_or.mp h
    refine ⟨fun ha => ⟨ha, ?_⟩, And.left⟩
    rcases Double.not_le_iff.mp hab with hba | ha' | hb
    · exact Double.le_trans_of_le (Double.le_of_lt hba) ha
    · exact absurd ha (hundefined ha')
    · exact absurd hb hb'

theorem meets_both (t u : Thresholds Float) (s : Suggestion Float) :
    meets (t.both u) s = (meets t s && meets u s) := by
  rw [Bool.eq_iff_iff, Bool.and_eq_true, meets_iff, meets_iff, meets_iff, Thresholds.both,
    stricter_le_iff, stricter_le_iff, and_and_and_comm]

end Both

/-! ## The best suggestion -/

section Best

variable {α : Type} [Scalar α] [Numeral α] (t : Thresholds α) (count : Nat)
  {xs ys : List (Suggestion α)}

theorem selectBest_list : (selectBest t count xs).2 = select t count xs := by
  rw [selectBest]
  split
  next hnone => exact hnone.symm
  next hsome => exact hsome.symm

theorem selectBest_eq_ok_iff {best : Suggestion α} :
    (selectBest t count xs).1 = .ok best ↔ (select t count xs).head? = some best := by
  rw [selectBest]
  split
  next hnone => simp [hnone]
  next hsome => simp [hsome]

theorem selectBest_eq_error_iff {e : AnalysisError} :
    (selectBest t count xs).1 = .error e ↔ select t count xs = [] ∧ e = noneMeets t := by
  rw [selectBest]
  split
  next hnone => simp [hnone, eq_comm]
  next hsome => simp [hsome]

theorem selectBest_congr (h : select t count xs = select t count ys) :
    selectBest t count xs = selectBest t count ys := by
  rw [selectBest, selectBest, h]

end Best

section Greatest

variable {t : Thresholds Float} {count : Nat} {suggestions : List (Suggestion Float)}

theorem selectBest_isGreatest {best : Suggestion Float}
    (h : (selectBest t count suggestions).1 = .ok best) :
    best ∈ suggestions ∧ t.confidence ≤ best.confidence ∧ t.savings ≤ best.savings ∧
      ∀ s ∈ suggestions, t.confidence ≤ s.confidence → t.savings ≤ s.savings →
        s.scoreKey ≤ best.scoreKey := by
  have hhead := (selectBest_eq_ok_iff t count).mp h
  obtain ⟨hmem, hmeets⟩ := mem_select (List.mem_of_mem_head? hhead)
  obtain ⟨hconfidence, hsavings⟩ := meets_iff.mp hmeets
  refine ⟨hmem, hconfidence, hsavings, fun s hs hc hm => ?_⟩
  rcases head_ranksBefore hhead hs (meets_iff.mpr ⟨hc, hm⟩) with rfl | hbefore
  · exact le_rfl
  · exact (ranksBefore_iff best s).mp hbefore

end Greatest

/-- The list becomes what is selected from it, whatever is returned: its first suggestion, which
no other one that meets the thresholds outscores, or an error if it is empty.  The same call again
changes nothing.  A call with other thresholds gives what one call with both would have given, if
the first one cut nothing off. -/
theorem selectBest_replaces (t : Thresholds Float) (count : Nat)
    (suggestions : List (Suggestion Float)) :
    let call := selectBest t count suggestions
    call.2 = select t count suggestions ∧
    (∀ best, call.1 = .ok best ↔ (select t count suggestions).head? = some best) ∧
    ((∃ best, call.1 = .ok best) ↔ select t count suggestions ≠ []) ∧
    (∀ best, call.1 = .ok best →
      best ∈ suggestions ∧ t.confidence ≤ best.confidence ∧ t.savings ≤ best.savings ∧
      ∀ s ∈ suggestions, t.confidence ≤ s.confidence → t.savings ≤ s.savings →
        s.scoreKey ≤ best.scoreKey) ∧
    (∀ e, call.1 = .error e → e = noneMeets t ∧ e.kind = "ANALYSIS_ERROR" ∧ call.2 = []) ∧
    selectBest t count call.2 = call ∧
    (suggestions.countP (meets t) ≤ count → ∀ (t' : Thresholds Float) (count' : Nat),
      let again := selectBest t' count' call.2
      let once := selectBest (t.both t') count' suggestions
      again.2 = once.2 ∧ ∀ best, again.1 = .ok best ↔ once.1 = .ok best) ∧
    ∀ (t' : Thresholds Float) (s : Suggestion Float),
      meets (t.both t') s = true ↔ meets t s = true ∧ meets t' s = true := by
  intro call
  have hlist : call.2 = select t count suggestions := selectBest_list t count
  refine ⟨hlist, fun _ => selectBest_eq_ok_iff t count, ?_, ?_, ?_, ?_, ?_, ?_⟩
  · rw [← List.isSome_head?, Option.isSome_iff_exists]
    exact exists_congr fun _ => selectBest_eq_ok_iff t count
  · exact fun best => selectBest_isGreatest
  · intro e he
    obtain ⟨hnone, rfl⟩ := (selectBest_eq_error_iff t count).mp he
    exact ⟨rfl, rfl, hlist.trans hnone⟩
  · rw [hlist]
    exact selectBest_congr t count (select_again t count suggestions)
  · intro hcount t' count' again once
    have hsame : select t' count' call.2 = select (t.both t') count' suggestions := by
      rw [hlist]
      exact select_select_of_countP_le hcount (meets_both t t') count'
    refine ⟨?_, fun best => ?_⟩
    · exact (selectBest_list t' count').trans (hsame.trans (selectBest_list _ count').symm)
    · rw [selectBest_eq_ok_iff, selectBest_eq_ok_iff, hsame]
  · intro t' s
    rw [meets_both, Bool.and_eq_true]

/-- The first call finds that the last suggestion is the best, and the second one drops it. -/
theorem tied_selected_twice :
    let t : Thresholds Float := ⟨0.5, 10.0⟩
    let stricter : Thresholds Float := ⟨0.9, 0.0⟩
    let call := selectBest t 3 tiedSuggestions
    (∃ best, call.1 = .ok best ∧ best.id = "d" ∧ ∀ s ∈ tiedSuggestions,
      t.confidence ≤ s.confidence → t.savings ≤ s.savings → s.scoreKey ≤ best.scoreKey) ∧
      call.2.map Suggestion.id = ["d", "b", "c"] ∧
      selectBest t 3 call.2 = call ∧
      tiedSuggestions.countP (meets t) ≤ 3 ∧
      (∃ best, (selectBest stricter 1 call.2).1 = .ok best ∧ best.id = "c") ∧
      (selectBest stricter 1 call.2).2.map Suggestion.id = ["c"] := by
  intro t stricter call
  have hcount : tiedSuggestions.countP (meets t) ≤ 3 := by decide +kernel
  have hselect : (select t 3 tiedSuggestions).map Suggestion.id = ["d", "b", "c"] := by
    rw [select_eq_rank_filter, List.map_take, tied_rank]
    rfl
  have honce : (select (t.both stricter) 1 tiedSuggestions).map Suggestion.id = ["c"] := by
    rw [select_eq_rank_filter, rank,
      StableSort.mergeSort_eq_foldr ranksBefore_trans ranksBefore_total]
    decide +kernel
  obtain ⟨hlist, hhead, -, hbest, -, hagain, htwice, -⟩ := selectBest_replaces t 3 tiedSuggestions
  obtain ⟨hlist', hok⟩ := htwice hcount stricter 1
  have hfirst : ∀ {xs : List (Suggestion Float)} {id : String} {ids : List String},
      xs.map Suggestion.id = id :: ids → ∃ best, xs.head? = some best ∧ best.id = id := by
    intro xs id ids h
    obtain ⟨best, rest, rfl, hid, -⟩ := List.map_eq_cons_iff.mp h
    exact ⟨best, rfl, hid⟩
  obtain ⟨best, hfound, hid⟩ := hfirst hselect
  obtain ⟨next, hfound', hid'⟩ := hfirst honce
  have hcall := (hhead best).mpr hfound
  refine ⟨⟨best, hcall, hid, (hbest best hcall).2.2.2⟩, ?_, hagain, hcount,
    ⟨next, (hok next).mpr ((selectBest_eq_ok_iff _ 1).mpr hfound'), hid'⟩, ?_⟩
  · rw [hlist, hselect]
  · rw [hlist', selectBest_list, honce]

end BuildAdvisor.Suggestion
