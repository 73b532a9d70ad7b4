import BuildAdvisor.Pch.Plan
import BuildAdvisor.Proofs.HeaderPath
import BuildAdvisor.Proofs.Pch.Candidate
import BuildAdvisor.Proofs.Pch.Cost
import BuildAdvisor.Scalar.Double

/-!
What a plan does to the current list, and what a second plan does to its result.

* `plan_added`, `plan_removed`, `plan_resulting` — the three lists of a plan, each as a filter of
  the best candidates or of the current list;
* `replan_added`, `replan_removed` — a second plan changes nothing but best candidates that are
  removable: it brings back those that were listed, and removes those that were added;
* `stableAt_of_half_lt` — planners that ask for more than half of the units make stable plans;
* `pairBuild` — two files and a header that both rules take;
* `plan_edits_list` — a plan takes out what it removes, keeps the rest in order of first
  occurrence, puts what it adds at the end, and writes one directive a header;
* `replan_stable_iff` — a plan is stable exactly if no best candidate is removable.
-/

set_option autoImplicit false

namespace BuildAdvisor.Pch

/-! ## Source text -/

def sourceOpening : String := "// Precompiled header generated by buildlens\n#pragma once\n\n"

theorem sourceText_eq (headers : List String) :
    sourceText headers =
      sourceOpening ++ String.join (headers.map fun h => HeaderPath.includeDirective h ++ "\n") := by
  have hfold : ∀ text : String,
      headers.foldl (fun text h => text ++ HeaderPath.includeDirective h ++ "\n") text =
        text ++ String.join (headers.map fun h => HeaderPath.includeDirective h ++ "\n") := by
    induction headers with
    | nil => intro text; simp
    | cons h rest ih =>
      intro text
      rw [List.foldl_cons, ih, List.map_cons, String.join_cons]
      simp only [String.append_assoc]
  exact hfold sourceOpening

theorem exists_lines_sourceText (headers : List String) :
    ∃ lines, sourceText headers = sourceOpening ++ String.join lines ∧
      List.Forall₂ HeaderPath.IsDirective headers lines := by
  refine ⟨_, sourceText_eq headers, ?_⟩
  rw [List.forall₂_map_right_iff, List.forall₂_same]
  exact fun h _ => HeaderPath.includeDirective_spec h

/-! ## The lists of a plan -/

section Lists

variable {α : Type} [Scalar α] (p : Planner α) (t : Trace α) (g : Graph)

/-- The headers that a planner proposes if none is listed yet, best first. -/
def Planner.best : List String :=
  (candidates t g p.count p.ratio).map Candidate.header

/-- Whether a plan takes a header out of every list that has it. -/
def removable (header : String) : Bool :=
  decide (t.units.length ≠ 0) && isRemovable g t.units.length (perFileCosts t g) header

theorem Planner.best_nodup : (p.best t g).Nodup :=
  candidates_headers_nodup t g p.ratio p.count

variable (current : List String)

theorem plan_added :
    (p.plan t g current).added = (p.best t g).filter fun h => !current.contains h :=
  additions_headers t g p.ratio p.count current

theorem plan_removed : (p.plan t g current).removed = current.filter (removable t g) := by
  change Planner.removals t g current = _
  by_cases h : t.units.length = 0
  · simp [Planner.removals, removable, h]
  · rw [Planner.removals, if_neg h]
    apply List.filter_congr
    intro header _
    simp [removable, h]

theorem plan_added_nodup : (p.plan t g current).added.Nodup := by
  rw [plan_added]
  exact (p.best_nodup t g).filter _

theorem mem_plan_added {h : String} :
    h ∈ (p.plan t g current).added ↔ h ∈ p.best t g ∧ h ∉ current := by
  rw [plan_added, List.mem_filter]
  simp

theorem mem_plan_removed {h : String} :
    h ∈ (p.plan t g current).removed ↔ h ∈ current ∧ removable t g h = true := by
  rw [plan_removed, List.mem_filter]

/-- What is kept is told by the removal rule alone, however often a header is listed. -/
theorem kept_eq :
    (current.filter fun h => !(p.plan t g current).removed.contains h) =
      current.filter fun h => !removable t g h := by
  apply List.filter_congr
  intro h hm
  have hc : (p.plan t g current).removed.contains h = removable t g h := by
    rw [Bool.eq_iff_iff, List.contains_iff_mem, mem_plan_removed]
    simp [hm]
  rw [hc]

theorem plan_resulting :
    (p.plan t g current).resulting =
      distinct (current.filter fun h => !removable t g h) ++ (p.plan t g current).added := by
  change distinct ((current.filter fun h => !(p.plan t g current).removed.contains h) ++
    (p.plan t g current).added) = _
  rw [kept_eq]
  apply distinct_append_of_new _ _ (plan_added_nodup p t g current)
  intro h hm hk
  exact ((mem_plan_added p t g current).mp hm).2 (List.mem_of_mem_filter hk)

theorem plan_source :
    (p.plan t g current).source = sourceText (p.plan t g current).resulting := rfl

theorem mem_plan_resulting {h : String} :
    h ∈ (p.plan t g current).resulting ↔
      (h ∈ current ∧ removable t g h = false) ∨ (h ∈ p.best t g ∧ h ∉ current) := by
  rw [plan_resulting, List.mem_append, mem_distinct, List.mem_filter, mem_plan_added]
  simp

theorem plan_resulting_nodup : (p.plan t g current).resulting.Nodup :=
  distinct_nodup _

/-! ## Planning again -/

/-- A plan for the result of a plan leaves it as it is. -/
def Planner.StableAt : Prop :=
  let next := p.plan t g (p.plan t g current).resulting
  next.added = [] ∧ next.removed = [] ∧ next.resulting = (p.plan t g current).resulting

theorem replan_added :
    (p.plan t g (p.plan t g current).resulting).added =
      (p.best t g).filter fun h => removable t g h && current.contains h := by
  rw [plan_added]
  apply List.filter_congr
  intro h hm
  rw [Bool.eq_iff_iff, Bool.not_eq_true', ← Bool.not_eq_true, List.contains_iff_mem,
    mem_plan_resulting, Bool.and_eq_true, List.contains_iff_mem]
  by_cases hc : h ∈ current <;> simp [hc, hm]

theorem replan_removed :
    (p.plan t g (p.plan t g current).resulting).removed =
      (p.best t g).filter fun h => removable t g h && !current.contains h := by
  have hkept : (distinct (current.filter fun h => !removable t g h)).filter (removable t g) = [] := by
    rw [List.filter_eq_nil_iff]
    intro h hm
    simpa using (List.mem_filter.mp (mem_distinct.mp hm)).2
  rw [plan_removed, plan_resulting, List.filter_append, hkept, List.nil_append, plan_added,
    List.filter_filter]

theorem replan_idle_iff :
    ((p.plan t g (p.plan t g current).resulting).added = [] ∧
        (p.plan t g (p.plan t g current).resulting).removed = []) ↔
      ∀ header ∈ p.best t g, removable t g header = false := by
  rw [replan_added, replan_removed, List.filter_eq_nil_iff, List.filter_eq_nil_iff]
  constructor
  · rintro ⟨hadded, hremoved⟩ header hm
    by_cases hc : header ∈ current
    · simpa [hc] using hadded header hm
    · simpa [hc] using hremoved header hm
  · intro h
    constructor
    · intro header hm
      simp [h header hm]
    · intro header hm
      simp [h header hm]

theorem plan_resulting_eq_self (hn : current.Nodup) (hadded : (p.plan t g current).added = [])
    (hremoved : (p.plan t g current).removed = []) : (p.plan t g current).resulting = current := by
  have hkept : (current.filter fun h => !removable t g h) = current := by
    rw [plan_removed, List.filter_eq_nil_iff] at hremoved
    exact List.filter_eq_self.mpr fun h hm => by simpa using hremoved h hm
  rw [plan_resulting, hkept, hadded, List.append_nil, distinct_of_nodup hn]

theorem stableAt_iff :
    p.StableAt t g current ↔ ∀ header ∈ p.best t g, removable t g header = false := by
  constructor
  · rintro ⟨hadded, hremoved, -⟩
    exact (replan_idle_iff p t g current).mp ⟨hadded, hremoved⟩
  · intro h
    obtain ⟨hadded, hremoved⟩ := (replan_idle_iff p t g current).mpr h
    exact ⟨hadded, hremoved, plan_resulting_eq_self p t g _ (plan_resulting_nodup p t g current)
      hadded hremoved⟩

end Lists

/-! ## Headers in wide use -/

/-- No rule removes what more than half of the units use. -/
theorem removable_eq_false_of_half_lt {g : Graph} {t : Trace Rat} {header : String}
    (h : (t.units.length : Rat) / 2 < ((g.dependents header).length : Rat)) :
    removable t g header = false := by
  by_cases hu : t.units.length = 0
  · simp [removable, hu]
  · have hpos : (0 : Rat) < (t.units.length : Rat) := by exact_mod_cast Nat.pos_of_ne_zero hu
    have hratio : 1 / 2 < (usageRatio g header t.units.length : Rat) := by
      rw [usageRatio, if_neg hu, lt_div_iff₀ hpos, one_div_mul_eq_div]
      exact h
    have hused : ¬ (usageRatio g header t.units.length : Rat) < unusedRatio := by
      have hle : (unusedRatio : Rat) ≤ 1 / 2 := by norm_num [unusedRatio]
      exact not_lt.mpr (hle.trans hratio.le)
    have hwide : ¬ (usageRatio g header t.units.length : Rat) ≤ cheapRatio := by
      have heq : (cheapRatio : Rat) = 1 / 2 := by norm_num [cheapRatio]
      rw [heq]
      exact not_le.mpr hratio
    simp [removable, isRemovable, hused, hwide]

theorem stableAt_of_half_lt {g : Graph} {l : Graph.EdgeLog} (h : g.Tracks l) (t : Trace Rat)
    (p : Planner Rat) (hp : 1 / 2 < p.ratio) (current : List String) : p.StableAt t g current := by
  rw [stableAt_iff]
  intro header hm
  obtain ⟨c, hc, rfl⟩ := List.mem_map.mp hm
  have hranked := (candidates_sublist t g p.ratio p.count).mem hc
  have he := eligible_of_mem_ranked t g p.ratio hranked
  rw [eligible, Bool.and_eq_true, Bool.and_eq_true, decide_eq_true_iff, inclusionCount_eq h] at he
  by_cases hu : t.units.length = 0
  · simp [removable, hu]
  · have hpos : (0 : Rat) < (t.units.length : Rat) := by exact_mod_cast Nat.pos_of_ne_zero hu
    apply removable_eq_false_of_half_lt
    calc
      (t.units.length : Rat) / 2 = (t.units.length : Rat) * (1 / 2) := (mul_one_div _ _).symm
      _ < (t.units.length : Rat) * p.ratio := mul_lt_mul_of_pos_left hp hpos
      _ ≤ ((g.dependents c.header).length : Rat) := he.1.1

/-! ## A header that both rules take -/

def timedUnit (path : String) (preprocessing : Float) : CompilationUnit Float :=
  { (CompilationUnit.empty : CompilationUnit Float) with
    path, total := preprocessing, preprocessing }

/-- Both files include `base.h`, and one of them `cheap.h`, which costs 40 ms. -/
def pairBuild : Trace Float :=
  { (Trace.empty : Trace Float) with
    units := [timedUnit "main.cpp" 80, timedUnit "util.cpp" 60]
    graph := Graph.run [.addEdge "main.cpp" "base.h" .direct,
      .addEdge "main.cpp" "cheap.h" .direct, .addEdge "util.cpp" "base.h" .direct] }

def pairBuildPlan (current : List String) : Plan Float :=
  Planner.default.plan pairBuild pairBuild.graph current

theorem pairBuild_ranked :
    (ranked pairBuild pairBuild.graph 0.3).map Candidate.header = ["base.h", "cheap.h"] := by
  have hunits : pairBuild.units.length ≠ 0 := by decide
  rw [ranked, if_neg hunits, List.mergeSort_of_pairwise]
  · decide +kernel
  · decide +kernel

theorem pairBuild_candidates (count : Nat) :
    (candidates pairBuild pairBuild.graph count 0.3).map Candidate.header =
      ["base.h", "cheap.h"].take count := by
  rw [candidates, List.map_take, pairBuild_ranked]

theorem pairBuildPlan_added (current : List String) :
    (pairBuildPlan current).added =
      ["base.h", "cheap.h"].filter fun h => !current.contains h := by
  rw [pairBuildPlan, plan_added]
  exact congrArg (List.filter _) (pairBuild_candidates 10)

theorem pairBuildPlan_resulting (current : List String) :
    (pairBuildPlan current).resulting =
      distinct (current.filter fun h => !removable pairBuild pairBuild.graph h) ++
        ["base.h", "cheap.h"].filter fun h => !current.contains h := by
  rw [pairBuildPlan, plan_resulting, ← pairBuildPlan, pairBuildPlan_added]

/-! ## Plans as edits -/

/-- The headers of a plan are those of the current list, less the removed ones and each where it
was first listed, and then the added ones, which are new and ranked.  Its source has one line for
each of them, which includes it. -/
theorem plan_edits_list {α : Type} [Scalar α] (p : Planner α) (t : Trace α) (g : Graph)
    (current : List String) :
    let plan := p.plan t g current
    plan.added.Nodup ∧ (∀ h ∈ plan.added, h ∉ current) ∧
    (∀ h ∈ plan.removed, h ∈ current) ∧ plan.added.Disjoint plan.removed ∧
    plan.resulting.Nodup ∧
    (∀ h, h ∈ plan.resulting ↔ (h ∈ current ∧ h ∉ plan.removed) ∨ h ∈ plan.added) ∧
    (∃ kept, plan.resulting = kept ++ plan.added ∧
      (∀ h, h ∈ kept ↔ h ∈ current ∧ h ∉ plan.removed) ∧
      kept.Pairwise fun a b => current.idxOf a < current.idxOf b) ∧
    (∃ ranking : List (Candidate α), plan.added = ranking.map Candidate.header ∧
      ranking.Sublist (ranked t g p.ratio) ∧
      ranking.Pairwise fun a b => Scalar.descending a.benefit b.benefit = true) ∧
    ∃ lines, plan.source = sourceOpening ++ String.join lines ∧
      List.Forall₂ HeaderPath.IsDirective plan.resulting lines := by
  intro plan
  have hadded : ∀ h ∈ plan.added, h ∉ current := fun h hm =>
    ((mem_plan_added p t g current).mp hm).2
  have hremoved : ∀ h ∈ plan.removed, h ∈ current := fun h hm =>
    ((mem_plan_removed p t g current).mp hm).1
  have hresulting : plan.resulting = _ := plan_resulting p t g current
  have hkept : ∀ h, h ∈ distinct (current.filter fun h => !removable t g h) ↔
      h ∈ current ∧ h ∉ plan.removed := by
    intro h
    rw [mem_distinct, List.mem_filter, mem_plan_removed, not_and, Bool.not_eq_true']
    exact ⟨fun hk => ⟨hk.1, fun _ => by simp [hk.2]⟩, fun hk => ⟨hk.1, by simpa using hk.2 hk.1⟩⟩
  refine ⟨plan_added_nodup p t g current, hadded, hremoved, ?_,
    plan_resulting_nodup p t g current, ?_, ?_, ?_, exists_lines_sourceText plan.resulting⟩
  · exact fun h ha hr => hadded h ha (hremoved h hr)
  · intro h
    rw [hresulting, List.mem_append, hkept]
  · refine ⟨_, hresulting, hkept, ?_⟩
    rw [distinct_filter]
    exact (distinct_pairwise_idxOf current).filter _
  · have hsub : (additions t g current p.count p.ratio).Sublist (ranked t g p.ratio) :=
      List.filter_sublist.trans (candidates_sublist t g p.ratio p.count)
    exact ⟨_, rfl, hsub, (ranked_pairwise t g p.ratio).sublist hsub⟩

theorem pairPlan_edits :
    let plan := pairBuildPlan ["base.h", "old.h", "base.h"]
    plan.added = ["cheap.h"] ∧ "cheap.h" ∉ ["base.h", "old.h", "base.h"] ∧
      plan.removed = ["old.h"] ∧ plan.resulting = ["base.h", "cheap.h"] ∧ plan.resulting.Nodup ∧
      plan.source = "// Precompiled header generated by buildlens\n#pragma once\n\n" ++
        "#include \"base.h\"\n#include \"cheap.h\"\n" ∧
      ∃ lines, plan.source = sourceOpening ++ String.join lines ∧
        List.Forall₂ HeaderPath.IsDirective ["base.h", "cheap.h"] lines := by
  intro plan
  obtain ⟨-, hnew, -, -, hnodup, -, -, -, hsource⟩ :=
    plan_edits_list Planner.default pairBuild pairBuild.graph ["base.h", "old.h", "base.h"]
  have hadded : plan.added = ["cheap.h"] := by
    rw [pairBuildPlan_added]
    decide
  have hresulting : plan.resulting = ["base.h", "cheap.h"] := by
    rw [pairBuildPlan_resulting]
    decide +kernel
  refine ⟨hadded, hnew "cheap.h" ?_, ?_, hresulting, hnodup, ?_, ?_⟩
  · exact hadded.symm ▸ List.mem_singleton.mpr rfl
  · refine (plan_removed _ _ _ _).trans ?_
    decide +kernel
  · refine (plan_source _ _ _ _).trans ?_
    rw [show (Planner.default.plan pairBuild pairBuild.graph _).resulting = _ from hresulting]
    decide +kernel
  · rw [← hresulting]
    exact hsource

/-! ## Stability -/

/-- The rules for adding and for removing are apart, so a header can meet both.  Whatever is
listed, planning again concerns such headers alone: those that the first plan took out are back,
and those that it put in are out. -/
theorem replan_stable_iff {α : Type} [Scalar α] (p : Planner α) (t : Trace α) (g : Graph)
    (current : List String) :
    let next := p.plan t g (p.plan t g current).resulting
    next.added = (p.best t g).filter (fun h => removable t g h && current.contains h) ∧
    next.removed = (p.best t g).filter (fun h => removable t g h && !current.contains h) ∧
    (p.StableAt t g current ↔ ∀ header ∈ p.best t g, removable t g header = false) :=
  ⟨replan_added p t g current, replan_removed p t g current, stableAt_iff p t g current⟩

/-- A header that half of the files use is common enough to be added, and cheap enough to be
removed. -/
theorem pairPlan_not_stable :
    (pairBuildPlan ["base.h"]).resulting = ["base.h", "cheap.h"] ∧
      (pairBuildPlan (pairBuildPlan ["base.h"]).resulting).removed = ["cheap.h"] ∧
      (pairBuildPlan (pairBuildPlan ["base.h"]).resulting).resulting = ["base.h"] ∧
      ¬ Planner.default.StableAt pairBuild pairBuild.graph ["base.h"] := by
  have hfirst : (pairBuildPlan ["base.h"]).resulting = ["base.h", "cheap.h"] := by
    rw [pairBuildPlan_resulting]
    decide +kernel
  have hremoved : (pairBuildPlan ["base.h", "cheap.h"]).removed = ["cheap.h"] := by
    rw [pairBuildPlan, plan_removed]
    decide +kernel
  have hnext : (pairBuildPlan ["base.h", "cheap.h"]).resulting = ["base.h"] := by
    rw [pairBuildPlan_resulting]
    decide +kernel
  rw [hfirst]
  refine ⟨rfl, hremoved, hnext, ?_⟩
  rintro ⟨-, hnone, -⟩
  change (pairBuildPlan (pairBuildPlan ["base.h"]).resulting).removed = [] at hnone
  rw [hfirst, hremoved] at hnone
  cases hnone

/-- The cheap header comes back if it was listed, and is no trouble to a planner that would add
one header only. -/
theorem pairPlan_again :
    (pairBuildPlan (pairBuildPlan ["cheap.h"]).resulting).added = ["cheap.h"] ∧
      Planner.StableAt ⟨1, 0.3⟩ pairBuild pairBuild.graph ["cheap.h"] := by
  constructor
  · have h := (replan_stable_iff Planner.default pairBuild pairBuild.graph ["cheap.h"]).1
    refine h.trans ?_
    rw [show Planner.default.best pairBuild pairBuild.graph = _ from pairBuild_candidates 10]
    decide +kernel
  · refine (replan_stable_iff _ _ _ _).2.2.mpr ?_
    rw [Planner.best, pairBuild_candidates]
    decide +kernel

end BuildAdvisor.Pch
