import BuildAdvisor.Proofs.Scalar.Double
import BuildAdvisor.Proofs.StableSort
import BuildAdvisor.Suggestion.Ranking

/-!
What a selection keeps.

* `mem_rank_iff` — ranking reorders;
* `mem_select` — a selected suggestion was given, and meets the thresholds;
* `ranksBefore_total`, `ranksBefore_trans` — the ranking order leaves nothing incomparable;
* `ranksBefore_iff` — over doubles it is the order of one whole number for each suggestion, its
  `scoreKey`;
* `select_eq_rank_filter` — filtering before ranking gives the same selection;
* `select_best` — a selection holds the best of the places that meet the thresholds.
-/

set_option autoImplicit false

namespace BuildAdvisor.Suggestion

section Membership

variable {α : Type} [Scalar α]

@[simp] theorem mem_rank_iff {suggestions : List (Suggestion α)} {s : Suggestion α} :
    s ∈ rank suggestions ↔ s ∈ suggestions :=
  List.mem_mergeSort

theorem meets_iff {t : Thresholds α} {s : Suggestion α} :
    meets t s = true ↔ t.confidence ≤ s.confidence ∧ t.savings ≤ s.savings := by
  rw [meets, Bool.and_eq_true, decide_eq_true_iff, decide_eq_true_iff]

theorem mem_select {t : Thresholds α} {count : Nat} {suggestions : List (Suggestion α)}
    {s : Suggestion α} (h : s ∈ select t count suggestions) :
    s ∈ suggestions ∧ meets t s = true := by
  obtain ⟨hm, ht⟩ := List.mem_filter.mp (List.mem_of_mem_take h)
  exact ⟨mem_rank_iff.mp hm, ht⟩

end Membership

/-! ## Order -/

section Order

variable {α : Type} [Scalar α]

theorem ranksBefore_eq_true_iff {s t : Suggestion α} : ranksBefore s t = true ↔
    t.tier < s.tier ∨ s.tier = t.tier ∧ Scalar.precedes t.score s.score = true := by
  simp [ranksBefore]

theorem ranksBefore_total (s t : Suggestion α) : (ranksBefore s t || ranksBefore t s) = true := by
  rw [Bool.or_eq_true, ranksBefore_eq_true_iff, ranksBefore_eq_true_iff]
  have hscore := Scalar.precedes_total t.score s.score
  rw [Bool.or_eq_true] at hscore
  rcases Nat.lt_trichotomy s.tier t.tier with h | h | h
  · exact .inr (.inl h)
  · exact hscore.imp (fun hp => .inr ⟨h, hp⟩) (fun hp => .inr ⟨h.symm, hp⟩)
  · exact .inl (.inl h)

theorem ranksBefore_trans (s t u : Suggestion α) (hst : ranksBefore s t = true)
    (htu : ranksBefore t u = true) : ranksBefore s u = true := by
  rw [ranksBefore_eq_true_iff] at *
  rcases hst with hst | ⟨hst, hp⟩
  · rcases htu with htu | ⟨htu, -⟩
    · exact .inl (Nat.lt_trans htu hst)
    · exact .inl (htu ▸ hst)
  · rcases htu with htu | ⟨htu, hq⟩
    · exact .inl (hst ▸ htu)
    · exact .inr ⟨hst.trans htu, Scalar.precedes_trans _ _ _ hq hp⟩

theorem select_eq_rank_filter (t : Thresholds α) (count : Nat)
    (suggestions : List (Suggestion α)) :
    select t count suggestions = (rank (suggestions.filter (meets t))).take count := by
  unfold select rank
  rw [StableSort.filter_mergeSort ranksBefore_trans ranksBefore_total]

end Order

/-! ## Identifiers -/

section Identifiers

variable {α : Type} [Scalar α]

theorem select_map {f : Suggestion α → Suggestion α} (hf : ∀ s, (f s).toFinding = s.toFinding)
    (t : Thresholds α) (count : Nat) (suggestions : List (Suggestion α)) :
    select t count (suggestions.map f) = (select t count suggestions).map f := by
  have hbefore : ∀ s u, ranksBefore s u = ranksBefore (f s) (f u) := by
    intro s u
    unfold ranksBefore tier score
    rw [hf s, hf u]
  have hmeets : meets t ∘ f = meets t := by
    funext s
    change meets t (f s) = meets t s
    unfold meets
    rw [hf s]
  unfold select rank
  rw [← List.map_mergeSort fun s _ u _ => hbefore s u, List.filter_map, hmeets, List.map_take]

/-- What is selected does not hang on the identifiers: both lists are compared with the one in
which every identifier is empty. -/
theorem select_findings_congr {t : Thresholds α} {count : Nat} {xs ys : List (Suggestion α)}
    (h : xs.map Suggestion.toFinding = ys.map Suggestion.toFinding) :
    (select t count xs).map Suggestion.toFinding =
      (select t count ys).map Suggestion.toFinding := by
  let blank : Finding α → Suggestion α := fun f => ⟨f, ""⟩
  have hblank : ∀ l : List (Suggestion α), (select t count l).map Suggestion.toFinding =
      (select t count ((l.map Suggestion.toFinding).map blank)).map Suggestion.toFinding := by
    intro l
    rw [List.map_map, select_map (f := blank ∘ Suggestion.toFinding) fun _ => rfl, List.map_map]
    rfl
  rw [hblank xs, hblank ys, h]

end Identifiers

/-! ## Scores over doubles -/

/-- The place of confidence times savings in the total order of doubles, greatest last.

Places of undefined numbers are told by their signs.  This follows machines on which an undefined
factor stands for a positive one and passes its sign on, while a product of two defined factors that
is undefined has a sign bit: the one is above all numbers, and the other below. -/
def scoreKey (s : Suggestion Float) : Int :=
  let product := s.confidence * s.savings
  if product.isNaN && !(s.confidence.isNaN || s.savings.isNaN) then -0x7ff8000000000001
  else Double.orderKey product

theorem scoreKey_cases (s : Suggestion Float) :
    (s.tier = 2 ∧ s.scoreKey = 0x7ff8000000000000 ∧
      Double.orderKey s.score = 0x7ff8000000000000) ∨
    (s.tier = 1 ∧ s.scoreKey = Double.orderKey s.score ∧
      -0x7ff8000000000000 < s.scoreKey ∧ s.scoreKey < 0x7ff8000000000000) ∨
    (s.tier = 0 ∧ s.scoreKey = -0x7ff8000000000001 ∧
      Double.orderKey s.score = 0x7ff8000000000000) := by
  have htier : s.tier = if s.score.isNaN = true then
      if (s.confidence.isNaN || s.savings.isNaN) = true then 2 else 0 else 1 := rfl
  have hproduct : s.scoreKey =
      if s.score.isNaN && !(s.confidence.isNaN || s.savings.isNaN) then -0x7ff8000000000001
      else Double.orderKey s.score := rfl
  by_cases hscore : s.score.isNaN = true
  · have hkey := Double.orderKey_of_isNaN hscore
    by_cases hfactor : (s.confidence.isNaN || s.savings.isNaN) = true
    · refine .inl ⟨?_, ?_, hkey⟩
      · rw [htier, if_pos hscore, if_pos hfactor]
      · rw [hproduct, hscore, hfactor]
        exact hkey
    · refine .inr (.inr ⟨?_, ?_, hkey⟩)
      · rw [htier, if_pos hscore, if_neg hfactor]
      · rw [hproduct, hscore, (Bool.not_eq_true _).mp hfactor]
        rfl
  · rw [Bool.not_eq_true] at hscore
    have hkey : s.scoreKey = Double.orderKey s.score := by
      rw [hproduct, hscore]
      rfl
    refine .inr (.inl ⟨?_, hkey, ?_⟩)
    · rw [htier, hscore]
      rfl
    · rw [hkey]
      exact Double.orderKey_bounds hscore

theorem ranksBefore_iff (s t : Suggestion Float) :
    ranksBefore s t = true ↔ t.scoreKey ≤ s.scoreKey := by
  have hp : Scalar.precedes t.score s.score = true ↔
      Double.orderKey t.score ≤ Double.orderKey s.score := Double.precedes_iff _ _
  rw [ranksBefore_eq_true_iff, hp]
  have hs := scoreKey_cases s
  have ht := scoreKey_cases t
  omega

/-! ## Selections -/

/-- `p` and `q` are suggestions with their places in a list: `p` has the higher product of
confidence and savings, or the same product and the earlier place. -/
def Precedes (p q : Suggestion Float × Nat) : Prop :=
  q.1.scoreKey < p.1.scoreKey ∨ p.1.scoreKey = q.1.scoreKey ∧ p.2 < q.2

theorem precedes_of_ahead {p q : Suggestion Float × Nat}
    (h : StableSort.Ahead ranksBefore p q) : Precedes p q := by
  unfold StableSort.Ahead at h
  rw [ranksBefore_iff, ranksBefore_iff] at h
  unfold Precedes
  omega

/-- Of the places of a list that meet the thresholds, a selection takes the best ones, each once
and best first, and as many as there are or as may be taken.  Filtering may come first, and a
greater number only adds at the end. -/
theorem select_best (t : Thresholds Float) (suggestions : List (Suggestion Float)) :
    (∀ count, ∃ kept : List (Suggestion Float × Nat),
      select t count suggestions = kept.map Prod.fst ∧
      (∀ p ∈ kept, suggestions[p.2]? = some p.1 ∧
        t.confidence ≤ p.1.confidence ∧ t.savings ≤ p.1.savings) ∧
      (kept.map Prod.snd).Nodup ∧
      kept.Pairwise Precedes ∧
      kept.length = min count (suggestions.countP (meets t)) ∧
      ∀ p : Suggestion Float × Nat, suggestions[p.2]? = some p.1 →
        t.confidence ≤ p.1.confidence → t.savings ≤ p.1.savings → p ∉ kept →
        ∀ q ∈ kept, Precedes q p) ∧
    (∀ count, select t count suggestions =
      (rank (suggestions.filter (meets t))).take count) ∧
    ∀ m n, m ≤ n → select t m suggestions <+: select t n suggestions := by
  refine ⟨fun count => ?_, fun count => select_eq_rank_filter t count suggestions, ?_⟩
  · obtain ⟨kept, hselect, hmem, hnodup, hpairs, hlength, hrest⟩ :=
      StableSort.exists_kept ranksBefore_trans ranksBefore_total (meets t) count suggestions
    refine ⟨kept, hselect, ?_, hnodup, hpairs.imp precedes_of_ahead, hlength, ?_⟩
    · intro p hp
      obtain ⟨hplace, hm⟩ := hmem p hp
      exact ⟨hplace, meets_iff.mp hm⟩
    · intro p hplace hc hs hnot q hq
      exact precedes_of_ahead (hrest p hplace (meets_iff.mpr ⟨hc, hs⟩) hnot q hq)
  · intro m n hmn
    exact List.take_prefix_take_left hmn

/-- One that saves too little, two of one score, and behind them one of a higher score. -/
def tiedSuggestions : List (Suggestion Float) :=
  [("a", 0.25, 8.0), ("b", 0.5, 100.0), ("c", 1.0, 50.0), ("d", 0.75, 80.0)].map
    fun (id, confidence, savings) =>
      ⟨⟨.pchAddition, .low, confidence, "", "", "", [], [], savings, true⟩, id⟩

/-- The last one moves ahead, and the two that tie stay in order. -/
theorem tied_rank :
    (rank (tiedSuggestions.filter (meets ⟨0.5, 10.0⟩))).map Suggestion.id = ["d", "b", "c"] := by
  rw [rank, StableSort.mergeSort_eq_foldr ranksBefore_trans ranksBefore_total]
  decide +kernel

theorem tied_select_grows :
    (select ⟨0.5, 10.0⟩ 2 tiedSuggestions).map Suggestion.id = ["d", "b"] ∧
      (select ⟨0.5, 10.0⟩ 5 tiedSuggestions).map Suggestion.id = ["d", "b", "c"] ∧
      select ⟨0.5, 10.0⟩ 2 tiedSuggestions <+: select ⟨0.5, 10.0⟩ 5 tiedSuggestions := by
  obtain ⟨-, hfilter, hgrows⟩ := select_best ⟨0.5, 10.0⟩ tiedSuggestions
  refine ⟨?_, ?_, hgrows 2 5 (by decide)⟩
  · rw [hfilter, List.map_take, tied_rank]
    rfl
  · rw [hfilter, List.map_take, tied_rank]
    rfl

end BuildAdvisor.Suggestion
