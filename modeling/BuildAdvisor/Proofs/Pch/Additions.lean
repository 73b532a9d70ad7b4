import BuildAdvisor.Proofs.Pch.Savings

/-!
What listed headers leave of the additions.

* `unlisted` — the eligible candidates outside the current list, best first;
* `placesTaken` — how many of the best candidates are listed;
* `unlisted_eq_append` — the additions begin this list, and end where the best candidates end;
* `additions_eq_take` — each listed header among the best takes a place that no other one fills;
* `additions_are_first` — how many additions there are, and when they are all that fit.
-/

set_option autoImplicit false

namespace BuildAdvisor.Pch

section Places

variable {α : Type} [Scalar α] (t : Trace α) (g : Graph) (ratio : α) (current : List String)
  (count : Nat)

def unlisted : List (Candidate α) :=
  (ranked t g ratio).filter fun c => !current.contains c.header

/-- Places of the best `count` candidates that headers of the current list hold. -/
def placesTaken : Nat :=
  (candidates t g count ratio).countP fun c => current.contains c.header

theorem mem_unlisted {c : Candidate α} :
    c ∈ unlisted t g ratio current ↔ c ∈ ranked t g ratio ∧ c.header ∉ current := by
  rw [unlisted, List.mem_filter, Bool.not_eq_true', List.contains_eq_mem, decide_eq_false_iff_not]

theorem unlisted_eq_append :
    unlisted t g ratio current =
      additions t g current count ratio ++
        ((ranked t g ratio).drop count).filter fun c => !current.contains c.header := by
  rw [additions, candidates, ← List.filter_append, List.take_append_drop, unlisted]

theorem length_additions :
    (additions t g current count ratio).length + placesTaken t g ratio current count =
      (candidates t g count ratio).length := by
  rw [additions, ← List.countP_eq_length_filter, placesTaken, Nat.add_comm,
    List.length_eq_countP_add_countP fun c : Candidate α => current.contains c.header]
  simp

/-- Either every eligible candidate is among the best, or as many as asked for are. -/
theorem additions_eq_take :
    additions t g current count ratio =
      (unlisted t g ratio current).take (count - placesTaken t g ratio current count) := by
  have hlength := length_additions t g ratio current count
  rw [candidates, List.length_take] at hlength
  rw [unlisted_eq_append t g ratio current count]
  rcases Nat.le_total count (ranked t g ratio).length with hle | hle
  · rw [List.take_left' (by omega)]
  · rw [List.drop_eq_nil_of_le hle, List.filter_nil, List.append_nil,
      List.take_of_length_le (by omega)]

theorem additions_eq_take_iff :
    additions t g current count ratio = (unlisted t g ratio current).take count ↔
      placesTaken t g ratio current count = 0 ∨
        ∀ c ∈ (ranked t g ratio).drop count, c.header ∈ current := by
  have hlength := length_additions t g ratio current count
  have hcount : (candidates t g count ratio).length ≤ count := List.length_take_le count _
  constructor
  · intro heq
    by_contra hnot
    obtain ⟨htaken, hrest⟩ := not_or.mp hnot
    obtain ⟨c, hc, hnew⟩ : ∃ c ∈ (ranked t g ratio).drop count, c.header ∉ current := by
      simpa using hrest
    -- A place is taken and a candidate left over, so one more addition would fit.
    have hbeyond : 0 < (((ranked t g ratio).drop count).filter
        fun c => !current.contains c.header).length :=
      List.length_pos_of_mem (List.mem_filter.mpr ⟨hc, by simpa using hnew⟩)
    have hlengths := congrArg List.length heq
    rw [unlisted_eq_append t g ratio current count, List.length_take, List.length_append]
      at hlengths
    omega
  · rintro (htaken | hrest)
    · rw [additions_eq_take, htaken, Nat.sub_zero]
    · have hnone : (((ranked t g ratio).drop count).filter
          fun c => !current.contains c.header) = [] := by
        simpa [List.filter_eq_nil_iff] using hrest
      rw [unlisted_eq_append t g ratio current count, hnone, List.append_nil,
        List.take_of_length_le (by omega)]

theorem mem_additions_of_length_lt
    (h : (additions t g current count ratio).length < count - placesTaken t g ratio current count)
    {c : Candidate α} (hc : c ∈ ranked t g ratio) (hnew : c.header ∉ current) :
    c ∈ additions t g current count ratio := by
  have hmem := (mem_unlisted t g ratio current).mpr ⟨hc, hnew⟩
  rw [additions_eq_take] at h ⊢
  rw [List.length_take] at h
  rwa [List.take_of_length_le (by omega)]

end Places

/-! ## Additions in the order of the ranking -/

/-- A planner first takes the best candidates and then leaves out those that are listed.  So a
listed header costs a place if it is among the best, and none if it is not; the places that remain
go to the best of the other eligible candidates. -/
theorem additions_are_first {α : Type} [Scalar α] (t : Trace α) (g : Graph)
    (current : List String) (count : Nat) (ratio : α) :
    let added := additions t g current count ratio
    let others := unlisted t g ratio current
    let taken := placesTaken t g ratio current count
    added = others.take (count - taken) ∧
    (∀ c, c ∈ others ↔ c ∈ ranked t g ratio ∧ c.header ∉ current) ∧
    others.Pairwise (fun a b => Scalar.descending a.benefit b.benefit = true) ∧
    (added.length < count - taken →
      ∀ c ∈ ranked t g ratio, c.header ∉ current → c ∈ added) ∧
    (added = others.take count ↔
      taken = 0 ∨ ∀ c ∈ (ranked t g ratio).drop count, c.header ∈ current) := by
  intro added others taken
  refine ⟨additions_eq_take t g ratio current count, fun c => mem_unlisted t g ratio current,
    (ranked_pairwise t g ratio).sublist List.filter_sublist, ?_,
    additions_eq_take_iff t g ratio current count⟩
  intro hlt c hc hnew
  exact mem_additions_of_length_lt t g ratio current count hlt hc hnew

/-! ## A listed header among the best -/

/-- Its place is not given to the next candidate. -/
theorem pairBuild_crowded_out :
    additions pairBuild pairBuild.graph ["base.h"] 1 0.3 = [] ∧
      (unlisted pairBuild pairBuild.graph 0.3 ["base.h"]).map Candidate.header = ["cheap.h"] ∧
      additions pairBuild pairBuild.graph ["base.h"] 1 0.3 ≠
        (unlisted pairBuild pairBuild.graph 0.3 ["base.h"]).take 1 := by
  have hadded : additions pairBuild pairBuild.graph ["base.h"] 1 0.3 = [] := by
    rw [← List.map_eq_nil_iff, additions_headers, pairBuild_candidates]
    decide
  have hothers : (unlisted pairBuild pairBuild.graph 0.3 ["base.h"]).map Candidate.header =
      ["cheap.h"] := by
    change ((ranked pairBuild pairBuild.graph 0.3).filter
      ((fun h => !(["base.h"].contains h)) ∘ Candidate.header)).map Candidate.header = _
    rw [← List.filter_map, pairBuild_ranked]
    decide
  refine ⟨hadded, hothers, fun heq => ?_⟩
  have hheaders := congrArg (List.map Candidate.header) heq
  rw [hadded, List.map_take, hothers] at hheaders
  cases hheaders

/-- With two places to spare nothing is left out. -/
theorem pairBuild_additions :
    placesTaken pairBuild pairBuild.graph 0.3 ["base.h"] 3 = 1 ∧
      (∀ c ∈ ranked pairBuild pairBuild.graph 0.3, c.header ∉ ["base.h"] →
        c ∈ additions pairBuild pairBuild.graph ["base.h"] 3 0.3) ∧
      additions pairBuild pairBuild.graph ["base.h"] 3 0.3 =
        (unlisted pairBuild pairBuild.graph 0.3 ["base.h"]).take 3 := by
  obtain ⟨-, -, -, hall, hfirst⟩ :=
    additions_are_first pairBuild pairBuild.graph ["base.h"] 3 (0.3 : Float)
  have htaken : placesTaken pairBuild pairBuild.graph 0.3 ["base.h"] 3 = 1 := by
    change (candidates pairBuild pairBuild.graph 3 0.3).countP
      ((fun h => ["base.h"].contains h) ∘ Candidate.header) = 1
    rw [← List.countP_map, pairBuild_candidates]
    decide
  have hadded : (additions pairBuild pairBuild.graph ["base.h"] 3 0.3).length = 1 := by
    rw [← List.length_map Candidate.header, additions_headers, pairBuild_candidates]
    decide
  have hranked : (ranked pairBuild pairBuild.graph 0.3).length = 2 := by
    rw [← List.length_map Candidate.header, pairBuild_ranked]
    rfl
  refine ⟨htaken, hall (by rw [hadded, htaken]; decide), hfirst.mpr (.inr ?_)⟩
  rw [List.drop_eq_nil_of_le (by omega)]
  exact nofun

end BuildAdvisor.Pch
