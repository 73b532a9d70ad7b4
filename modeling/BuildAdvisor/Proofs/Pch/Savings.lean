import BuildAdvisor.Proofs.Pch.Plan
import BuildAdvisor.Proofs.Scalar.Arithmetic

/-!
What a candidate saves, what a list of headers saves, and what a plan saves.

* `headerSavings` — what one header saves, which is what its candidate says
  (`savings_of_mem_ranked`) and what is estimated for it alone (`estimateSavings_singleton`);
* `plan_savings_eq_sub`, `plan_savings` — a plan saves what its additions save, less the charge for
  its removals;
* `run_savings_agree` — the three agree in every graph that operations build.

An estimate for no header is zero, and the sum over no addition is minus zero.
-/

set_option autoImplicit false

namespace BuildAdvisor.Pch

open BuildAdvisor.Graph

variable {α : Type} [Scalar α] (t : Trace α) (g : Graph)

/-- What precompiling one header saves. -/
def headerSavings (header : String) : α :=
  savedBy (costOf (perFileCosts t g) header) (inclusionCount (inclusions g) header)

/-- What a plan is charged for its removals. -/
def charge (headers : List String) : α :=
  Scalar.sum (headers.map fun h => costOf (perFileCosts t g) h * removalCharge)

/-- What the additions of a plan gain, before anything is charged. -/
def Planner.gained (p : Planner α) (current : List String) : α :=
  Scalar.sum ((p.additions t g current).map fun c =>
    savedBy c.cost (g.dependents c.header).length)

theorem plan_savings_eq_sub (p : Planner α) (current : List String) :
    (p.plan t g current).savings =
      p.gained t g current - charge t g (p.plan t g current).removed :=
  rfl

theorem savings_of_mem_ranked {ratio : α} {c : Candidate α} (hc : c ∈ ranked t g ratio) :
    c.savings = headerSavings t g c.header := by
  rw [eq_of_mem_ranked t g ratio hc]
  rfl

theorem estimateSavings_of_ne_nil {headers : List String} (h : headers ≠ []) :
    estimateSavings t g headers = Scalar.sum (headers.map (headerSavings t g)) := by
  rw [estimateSavings, if_neg (by simpa using h)]
  rfl

/-- A plan costs its additions by their dependents, where an estimate counts their inclusions. -/
theorem plan_savings {l : EdgeLog} (h : Tracks g l) (p : Planner α) (current : List String) :
    (p.plan t g current).savings =
      Scalar.sum ((p.plan t g current).added.map (headerSavings t g)) -
        charge t g (p.plan t g current).removed := by
  have hsaved : ∀ c ∈ p.additions t g current,
      savedBy c.cost (g.dependents c.header).length = headerSavings t g c.header := by
    intro c hc
    have hranked := (candidates_sublist t g p.ratio p.count).mem (List.mem_of_mem_filter hc)
    rw [headerSavings, inclusionCount_eq h, eq_of_mem_ranked t g p.ratio hranked]
    rfl
  have hgained : p.gained t g current =
      Scalar.sum (((p.additions t g current).map Candidate.header).map (headerSavings t g)) := by
    rw [Planner.gained, List.map_congr_left hsaved, List.map_map]
    rfl
  rw [plan_savings_eq_sub, hgained]
  rfl

/-! ## Doubles -/

section Doubles

variable (t : Trace Float) (g : Graph)

/-- The sum of one number is that number, a zero with its sign included. -/
theorem estimateSavings_singleton (header : String) :
    estimateSavings t g [header] = headerSavings t g header := by
  rw [estimateSavings_of_ne_nil t g (List.cons_ne_nil header [])]
  exact Double.negZero_add _

/-- Where nothing is added, the plan starts from minus zero and the estimate from zero. -/
theorem plan_savings_same {l : EdgeLog} (h : Tracks g l) (p : Planner Float)
    (current : List String) :
    Double.SameNumber (p.plan t g current).savings
      (estimateSavings t g (p.plan t g current).added -
        charge t g (p.plan t g current).removed) := by
  rw [plan_savings t g h]
  cases (p.plan t g current).added with
  | nil => exact Double.sameNumber_zero_sub _
  | cons x rest =>
    rw [estimateSavings_of_ne_nil t g (List.cons_ne_nil x rest)]
    exact .refl _

end Doubles

/-! ## Exact numbers -/

section Exact

variable (t : Trace Rat) (g : Graph)

theorem costOf_nonneg (header : String) : 0 ≤ costOf (perFileCosts t g) header := by
  by_cases hm : header ∈ collected t g
  · have htotal := collected_nonneg (t := t) (g := g) header
    rw [costOf_of_mem hm, Rational.zero_literal]
    split_ifs with hpos
    · exact div_nonneg htotal (Nat.cast_nonneg _)
    · exact htotal
  · rw [costOf_eq_zero hm, Rational.zero_literal]

theorem savings_nonneg_of_mem_ranked {ratio : Rat} {c : Candidate Rat}
    (hc : c ∈ ranked t g ratio) : 0 ≤ c.savings := by
  rw [savings_of_mem_ranked t g hc, headerSavings, savedBy, recoverable]
  exact mul_nonneg (mul_nonneg (costOf_nonneg t g _) (Nat.cast_nonneg _)) (by norm_num)

theorem charge_eq (headers : List String) :
    charge t g headers = 0.1 * (headers.map fun h => costOf (perFileCosts t g) h).sum := by
  rw [charge, Rational.sum_eq, List.sum_map_mul_right, mul_comm]
  rfl

theorem plan_savings_exact {l : EdgeLog} (h : Tracks g l) (p : Planner Rat)
    (current : List String) :
    (p.plan t g current).savings =
      estimateSavings t g (p.plan t g current).added -
        0.1 * ((p.plan t g current).removed.map fun h => costOf (perFileCosts t g) h).sum := by
  rw [plan_savings t g h, charge_eq]
  cases (p.plan t g current).added with
  | nil =>
    have hstart : (-0.0 : Rat) = 0.0 := by norm_num
    exact congrArg (· - _) hstart
  | cons x rest => rw [estimateSavings_of_ne_nil t g (List.cons_ne_nil x rest)]

end Exact

/-! ## Agreement -/

/-- The inclusions of a header are counted from its edges or from its dependents, a candidate
saves what is estimated for its header alone, and a plan saves what is estimated for its additions
less the charge for its removals, as numbers.  The charge is rounded header by header; without
rounding it is a tenth of their cost. -/
theorem run_savings_agree (ops : List Operation) (current : List String) :
    let g := run ops
    (∀ header, inclusionCount (inclusions g) header = (g.dependents header).length) ∧
    (∀ (t : Trace Float) (count : Nat) (ratio : Float), ∀ c ∈ candidates t g count ratio,
      c.savings = estimateSavings t g [c.header]) ∧
    (∀ (t : Trace Float) (p : Planner Float),
      let plan := p.plan t g current
      Double.SameNumber plan.savings
        (estimateSavings t g plan.added -
          Scalar.sum (plan.removed.map fun h => costOf (perFileCosts t g) h * 0.1))) ∧
    ∀ (t : Trace Rat) (p : Planner Rat),
      let plan := p.plan t g current
      plan.savings = estimateSavings t g plan.added -
        0.1 * (plan.removed.map fun h => costOf (perFileCosts t g) h).sum := by
  intro g
  have h : Tracks g (EdgeLog.run ops) := tracks_run ops
  refine ⟨inclusionCount_eq h, ?_, ?_, ?_⟩
  · intro t count ratio c hc
    rw [estimateSavings_singleton]
    exact savings_of_mem_ranked t g ((candidates_sublist t g ratio count).mem hc)
  · intro t p
    exact plan_savings_same t g h p current
  · intro t p
    exact plan_savings_exact t g h p current

section Example

/-- Two listed headers that one unit each pays for, and a new one that three units include. -/
def roundedOperations : List Operation :=
  [.addEdge "a.cpp" "a.h" .direct, .addEdge "b.cpp" "b.h" .direct,
    .addEdge "x.cpp" "new.h" .direct, .addEdge "y.cpp" "new.h" .direct,
    .addEdge "z.cpp" "new.h" .direct]

def roundedTrace : Trace Float :=
  { (Trace.empty : Trace Float) with
    units := [timedUnit "a.cpp" 1e24, timedUnit "b.cpp" 23e24, timedUnit "x.cpp" 1e24,
      timedUnit "y.cpp" 1e24, timedUnit "z.cpp" 1e24, timedUnit "p.cpp" 0, timedUnit "q.cpp" 0]
    graph := run roundedOperations }

def roundedPlan : Plan Float :=
  Planner.default.plan roundedTrace (run roundedOperations) ["a.h", "b.h"]

theorem rounded_headers :
    (ranked roundedTrace (run roundedOperations) 0.3).map Candidate.header = ["new.h"] ∧
      roundedPlan.removed = ["a.h", "b.h"] := by
  have hunits : roundedTrace.units.length ≠ 0 := by decide
  constructor
  · rw [ranked, if_neg hunits, List.mergeSort_of_pairwise]
    · decide +kernel
    · decide +kernel
  · rw [roundedPlan, plan_removed]
    decide +kernel

theorem rounded_candidates :
    (candidates roundedTrace (run roundedOperations) 10 0.3).map Candidate.header = ["new.h"] := by
  rw [candidates, List.map_take, rounded_headers.1]
  rfl

theorem roundedPlan_added : roundedPlan.added = ["new.h"] := by
  rw [roundedPlan, plan_added, Planner.best]
  exact congrArg (List.filter _) rounded_candidates

theorem roundedPlan_removed : roundedPlan.removed = ["a.h", "b.h"] :=
  rounded_headers.2

theorem rounded_savings_agree :
    let g := run roundedOperations
    inclusionCount (inclusions g) "new.h" = (g.dependents "new.h").length ∧
      (∃ c ∈ candidates roundedTrace g 10 0.3, c.header = "new.h" ∧
        c.savings = estimateSavings roundedTrace g ["new.h"]) ∧
      Double.SameNumber roundedPlan.savings
        (estimateSavings roundedTrace g roundedPlan.added -
          Scalar.sum (roundedPlan.removed.map fun h =>
            costOf (perFileCosts roundedTrace g) h * 0.1)) := by
  intro g
  obtain ⟨hcount, hcandidate, hplan, -⟩ := run_savings_agree roundedOperations ["a.h", "b.h"]
  obtain ⟨c, hc, hheader⟩ : ∃ c ∈ candidates roundedTrace g 10 0.3, c.header = "new.h" :=
    List.mem_map.mp (rounded_candidates ▸ List.mem_singleton.mpr rfl)
  have hsavings := hcandidate roundedTrace 10 0.3 c hc
  rw [hheader] at hsavings
  exact ⟨hcount _, ⟨c, hc, hheader, hsavings⟩, hplan roundedTrace Planner.default⟩

/-- A tenth of the summed costs is another number: the plan seems to gain what the rounding of the
two charges leaves over. -/
theorem rounded_charge_not_tenth :
    let g := run roundedOperations
    let costs := perFileCosts roundedTrace g
    roundedPlan.savings = 268435456.0 ∧
      estimateSavings roundedTrace g roundedPlan.added -
        0.1 * Scalar.sum (roundedPlan.removed.map (costOf costs)) = 0.0 ∧
      ¬ Double.SameNumber roundedPlan.savings
        (estimateSavings roundedTrace g roundedPlan.added -
          0.1 * Scalar.sum (roundedPlan.removed.map (costOf costs))) := by
  intro g costs
  have hsavings : roundedPlan.savings = 268435456.0 := by
    rw [roundedPlan, plan_savings _ _ (tracks_run _), ← roundedPlan, roundedPlan_added,
      roundedPlan_removed]
    decide +kernel
  have htenth : estimateSavings roundedTrace g roundedPlan.added -
      0.1 * Scalar.sum (roundedPlan.removed.map (costOf costs)) = 0.0 := by
    rw [roundedPlan_added, roundedPlan_removed]
    decide +kernel
  refine ⟨hsavings, htenth, ?_⟩
  rw [hsavings, htenth]
  decide +kernel

end Example

end BuildAdvisor.Pch
