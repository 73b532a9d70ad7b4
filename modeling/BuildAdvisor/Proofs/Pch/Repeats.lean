import BuildAdvisor.Proofs.Pch.Additions

/-!
Headers that the current list repeats.

* `additions_congr` — additions depend on which headers are listed, not how often;
* `plan_resulting_distinct`, `plan_removed_distinct` — nor does the resulting list, which holds
  each header once; what is removed is reported as often as it was listed;
* `plan_eq_distinct_iff` — a plan is the one without repeats if it removes no repeated header;
* `charge_eq_distinct_add` — each repeat is charged as if it were another header;
* `repeated_removals_charged` — so repeats change a plan exactly where it removes them.
-/

set_option autoImplicit false

namespace BuildAdvisor.Pch

section Lists

variable {α : Type} [Scalar α] (p : Planner α) (t : Trace α) (g : Graph)

theorem additions_congr (ratio : α) (count : Nat) {xs ys : List String}
    (h : ∀ x, x ∈ xs ↔ x ∈ ys) :
    additions t g xs count ratio = additions t g ys count ratio := by
  have hcontains : ∀ x : String, xs.contains x = ys.contains x := by
    intro x
    rw [Bool.eq_iff_iff, List.contains_iff_mem, List.contains_iff_mem, h x]
  simp only [additions, hcontains]

variable (current : List String)

theorem plan_additions_distinct :
    p.additions t g (distinct current) = p.additions t g current :=
  additions_congr t g p.ratio p.count fun _ => mem_distinct

theorem plan_added_distinct :
    (p.plan t g (distinct current)).added = (p.plan t g current).added :=
  congrArg (List.map Candidate.header) (plan_additions_distinct p t g current)

theorem plan_removed_distinct :
    (p.plan t g (distinct current)).removed = distinct (p.plan t g current).removed := by
  rw [plan_removed, plan_removed, distinct_filter]

theorem plan_resulting_distinct :
    (p.plan t g (distinct current)).resulting = (p.plan t g current).resulting := by
  rw [plan_resulting, plan_resulting, plan_added_distinct, ← distinct_filter,
    distinct_of_nodup (distinct_nodup _)]

theorem count_plan_removed {header : String} (hm : header ∈ (p.plan t g current).removed) :
    (p.plan t g current).removed.count header = current.count header := by
  have hremovable := ((mem_plan_removed p t g current).mp hm).2
  rw [plan_removed, List.count_filter hremovable]

theorem gained_distinct : p.gained t g (distinct current) = p.gained t g current := by
  rw [Planner.gained, plan_additions_distinct, Planner.gained]

theorem plan_eq_distinct_iff :
    p.plan t g current = p.plan t g (distinct current) ↔
      ∀ header ∈ (p.plan t g current).removed, current.count header = 1 := by
  have hnodup : (p.plan t g current).removed.Nodup ↔
      ∀ header ∈ (p.plan t g current).removed, current.count header = 1 := by
    rw [List.nodup_iff_count_eq_one]
    exact forall₂_congr fun _ hm => by rw [count_plan_removed p t g current hm]
  rw [← hnodup]
  constructor
  · intro heq
    rw [heq, plan_removed_distinct]
    exact distinct_nodup _
  · intro hn
    have hremoved : (p.plan t g (distinct current)).removed = (p.plan t g current).removed := by
      rw [plan_removed_distinct, distinct_of_nodup hn]
    -- The source text is written from the resulting list, and the savings from the other two.
    have hplan : ∀ headers, p.plan t g headers =
        ⟨(p.plan t g headers).added, (p.plan t g headers).removed, (p.plan t g headers).resulting,
          sourceText (p.plan t g headers).resulting,
          p.gained t g headers - charge t g (p.plan t g headers).removed⟩ := fun _ => rfl
    rw [hplan current, hplan (distinct current), plan_added_distinct, hremoved,
      plan_resulting_distinct, gained_distinct]

end Lists

/-! ## The charge for repeats -/

section Charge

variable (t : Trace Rat) (g : Graph)

theorem sum_map_eq_distinct (weight : String → Rat) (xs : List String) :
    (xs.map weight).sum = ((distinct xs).map fun x => (xs.count x : Rat) * weight x).sum := by
  have hpiece : ∀ x, ((xs.filter fun y => id y == x).map weight).sum =
      (xs.count x : Rat) * weight x := by
    intro x
    have hfilter : (xs.filter fun y => id y == x) = List.replicate (xs.count x) x :=
      List.filter_beq x
    rw [hfilter, List.map_replicate, List.sum_replicate, nsmul_eq_mul]
  rw [← sum_fibres_weight id weight (distinct xs) xs (distinct_nodup xs)
    fun _ hx => mem_distinct.mpr hx]
  exact congrArg List.sum (List.map_congr_left fun x _ => hpiece x)

theorem charge_eq_distinct_add (headers : List String) :
    charge t g headers = charge t g (distinct headers) +
      0.1 * ((distinct headers).map fun h =>
        ((headers.count h - 1 : ℕ) : Rat) * costOf (perFileCosts t g) h).sum := by
  have hsplit : ((distinct headers).map fun h =>
      (headers.count h : Rat) * costOf (perFileCosts t g) h).sum =
        ((distinct headers).map fun h => costOf (perFileCosts t g) h +
          ((headers.count h - 1 : ℕ) : Rat) * costOf (perFileCosts t g) h).sum := by
    congr 1
    apply List.map_congr_left
    intro h hm
    have hpos : 1 ≤ headers.count h := List.one_le_count_iff.mpr (mem_distinct.mp hm)
    rw [Nat.cast_sub hpos, Nat.cast_one]
    ring
  rw [charge_eq, charge_eq, sum_map_eq_distinct, hsplit, List.sum_map_add, mul_add]

end Charge

/-! ## Plans for lists with repeats -/

/-- Repeats in the current list change nothing about what a plan adds or what results from it.  But
a header that it removes is reported as often as it was listed, and charged each time, so a plan
is the one for the list without repeats only if it removes none of them. -/
theorem repeated_removals_charged (g : Graph) (current : List String) :
    (∀ {α : Type} [Scalar α] (p : Planner α) (t : Trace α),
      let plan := p.plan t g current
      let single := p.plan t g (distinct current)
      plan.added = single.added ∧ plan.resulting = single.resulting ∧
      plan.source = single.source ∧ single.removed = distinct plan.removed ∧
      (∀ h ∈ plan.removed, plan.removed.count h = current.count h) ∧
      (∃ gained, plan.savings = gained - charge t g plan.removed ∧
        single.savings = gained - charge t g single.removed) ∧
      (plan = single ↔ ∀ h ∈ plan.removed, current.count h = 1)) ∧
    ∀ (p : Planner Rat) (t : Trace Rat),
      let plan := p.plan t g current
      let single := p.plan t g (distinct current)
      single.savings - plan.savings = 0.1 * (single.removed.map fun h =>
        ((current.count h - 1 : ℕ) : Rat) * costOf (perFileCosts t g) h).sum := by
  constructor
  · intro α _ p t plan single
    have hresulting := plan_resulting_distinct p t g current
    refine ⟨(plan_added_distinct p t g current).symm, hresulting.symm,
      congrArg sourceText hresulting.symm, plan_removed_distinct p t g current,
      fun h hm => count_plan_removed p t g current hm,
      ⟨p.gained t g current, rfl, ?_⟩, plan_eq_distinct_iff p t g current⟩
    rw [plan_savings_eq_sub, gained_distinct]
  · intro p t plan single
    have hremoved : single.removed = distinct plan.removed := plan_removed_distinct p t g current
    have hcounts : (single.removed.map fun h =>
        ((plan.removed.count h - 1 : ℕ) : Rat) * costOf (perFileCosts t g) h) =
          single.removed.map fun h =>
            ((current.count h - 1 : ℕ) : Rat) * costOf (perFileCosts t g) h := by
      apply List.map_congr_left
      intro h hm
      rw [count_plan_removed p t g current (mem_distinct.mp (hremoved ▸ hm))]
    have hcharge := charge_eq_distinct_add t g plan.removed
    rw [← hremoved, hcounts] at hcharge
    rw [plan_savings_eq_sub, plan_savings_eq_sub, gained_distinct, hcharge]
    ring

/-! ## A cheap header listed twice -/

/-- Which headers are listed does not change, and everything that counts removals does. -/
theorem cheapRepeated_charged_twice :
    distinct ["cheap.h", "cheap.h"] = ["cheap.h"] ∧
      (pairBuildPlan ["cheap.h", "cheap.h"]).removed = ["cheap.h", "cheap.h"] ∧
      (pairBuildPlan ["cheap.h"]).removed = ["cheap.h"] ∧
      (pairBuildPlan ["cheap.h", "cheap.h"]).savings = 72.0 ∧
      (pairBuildPlan ["cheap.h"]).savings = 76.0 ∧
      pairBuildPlan ["cheap.h", "cheap.h"] ≠ pairBuildPlan (distinct ["cheap.h", "cheap.h"]) := by
  have hdistinct : distinct ["cheap.h", "cheap.h"] = ["cheap.h"] := by decide +kernel
  have htwice : (pairBuildPlan ["cheap.h", "cheap.h"]).removed = ["cheap.h", "cheap.h"] := by
    rw [pairBuildPlan, plan_removed]
    decide +kernel
  have honce : (pairBuildPlan ["cheap.h"]).removed = ["cheap.h"] := by
    rw [pairBuildPlan, plan_removed]
    decide +kernel
  have hsavings : ∀ current, (pairBuildPlan current).savings =
      Scalar.sum ((pairBuildPlan current).added.map (headerSavings pairBuild pairBuild.graph)) -
        charge pairBuild pairBuild.graph (pairBuildPlan current).removed := fun current =>
    plan_savings pairBuild pairBuild.graph (Graph.tracks_run _) Planner.default current
  refine ⟨hdistinct, htwice, honce, ?_, ?_, fun heq => ?_⟩
  · rw [hsavings, pairBuildPlan_added, htwice]
    decide +kernel
  · rw [hsavings, pairBuildPlan_added, honce]
    decide +kernel
  · have hremoved := congrArg Plan.removed heq
    rw [hdistinct, htwice, honce] at hremoved
    cases hremoved

/-- The same build in exact numbers. -/
def pairTrace : Trace Rat :=
  { (Trace.empty : Trace Rat) with
    units := [unitOf "main.cpp" 80, unitOf "util.cpp" 60]
    graph := pairBuild.graph }

def pairPlan (current : List String) : Plan Rat :=
  Planner.default.plan pairTrace pairTrace.graph current

/-- A repeated header that stays costs nothing, and one that goes its charge for each repeat. -/
theorem pairPlan_repeats :
    pairBuildPlan ["base.h", "old.h", "base.h"] =
        pairBuildPlan (distinct ["base.h", "old.h", "base.h"]) ∧
      (pairPlan (distinct ["cheap.h", "cheap.h"])).savings -
        (pairPlan ["cheap.h", "cheap.h"]).savings = 4 := by
  constructor
  · obtain ⟨hplans, -⟩ :=
      repeated_removals_charged pairBuild.graph ["base.h", "old.h", "base.h"]
    obtain ⟨-, -, -, -, -, -, heq⟩ := hplans Planner.default pairBuild
    refine heq.mpr ?_
    rw [plan_removed]
    decide +kernel
  · obtain ⟨-, hcharge⟩ := repeated_removals_charged pairTrace.graph ["cheap.h", "cheap.h"]
    refine (hcharge Planner.default pairTrace).trans ?_
    rw [plan_removed]
    decide +kernel

end BuildAdvisor.Pch
