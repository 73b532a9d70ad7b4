import BuildAdvisor.Pch.Effectiveness
import BuildAdvisor.Pch.Plan
import BuildAdvisor.Proofs.Checked.Operation
import BuildAdvisor.Proofs.Data.Decode
import BuildAdvisor.Proofs.Pch.Cost

/-!
The analyses of headers, with the faults of their operations.

* `Manageable` — a graph that operations built, in which no header has too many dependents to
  count;
* `inclusions`, `perFileCosts`, `usageRatio` — what headers cost;
* `candidates`, `additions`, `rarelyUsed` — headers to precompile, and those not worth it;
* `estimateSavings`, `effectiveness`, `plan` — what precompiling saves, and a plan for it.

Each is the analysis of the same name, and its `_eq` says that it meets no fault.  A divisor is a
number of units, edges or users; it is positive by a test beside the division, or because the
trace has the unit that is asked about.
-/

set_option autoImplicit false

namespace BuildAdvisor.Checked

/-- Fewer dependents than a counter of 32 bits has values. -/
structure Manageable (g : Graph) : Prop where
  reachable : ∃ ops, g = Graph.run ops
  dependents_lt : ∀ header, (g.dependents header).length < UInt32.size

section Costs

variable {α : Type} [Scalar α]

/-! ## Costs -/

def inclusions (g : Graph) : Except Fault (Table Nat) :=
  (g.edges.map Edge.target).foldlM
    (fun table target => do
      let n ← increment UInt64.size (Pch.inclusionCount table target)
      pure (table.insert target n)) ∅

theorem Manageable.count_lt {g : Graph} (h : Manageable g) (header : String) :
    (g.edges.map Edge.target).count header < UInt64.size := by
  obtain ⟨ops, hops⟩ := h.reachable
  have htracks : Graph.Tracks g (Graph.EdgeLog.run ops) := hops ▸ Graph.tracks_run ops
  rw [← Pch.inclusionCount_eq_count, Pch.inclusionCount_eq htracks]
  exact (h.dependents_lt header).trans (by decide)

theorem inclusions_eq {g : Graph} (h : Manageable g) :
    inclusions g = pure (Pch.inclusions g) := by
  refine foldlM_eq_pure (fun targets : List String => targets.foldl
    (fun (table : Table Nat) target => table.alter target fun n => some (n.getD 0 + 1)) ∅) _ ?_
  intro done target todo he
  -- A count stays below the number of all edges into the header, whichever have been seen.
  have hroom : done.count target + 1 < UInt64.size := by
    have hlt := h.count_lt target
    rw [he, List.count_append, List.count_cons_self] at hlt
    omega
  rw [Pch.inclusionCount_foldl, increment_eq hroom, pure_bind, List.foldl_append, List.foldl_cons,
    List.foldl_nil, Table.alter_some, ← Std.ExtTreeMap.getD_eq_getD_getElem?,
    ← Pch.inclusionCount, Pch.inclusionCount_foldl]

def shares (g : Graph) (u : CompilationUnit α) : Except Fault (List (String × α)) :=
  let targets := g.dependencies u.path
  if u.preprocessing ≤ 0.0 ∨ targets.isEmpty then pure []
  else do
    let share ← divide u.preprocessing (targets.length : α)
    pure (targets.map fun target => (target, share))

def collected (t : Trace α) (g : Graph) : Except Fault (Table α) := do
  let parts ← t.units.mapM (shares g)
  pure (parts.flatten.foldl
    (fun table (header, share) => table.alter header fun x => some (x.getD 0.0 + share)) ∅)

def perFileCosts (t : Trace α) (g : Graph) : Except Fault (Table α) := do
  let table ← collected t g
  let costs ← table.toList.mapM fun (header, total) => do
    let cost ← divideIfAny total total (g.dependents header).length
    pure (header, cost)
  pure (Std.ExtTreeMap.ofList costs)

def usageRatio (g : Graph) (header : String) (units : Nat) : Except Fault α :=
  if units = 0 then pure 0.0
  else divide ((g.dependents header).length : α) (units : α)

variable [Scalar.Counting α]

theorem shares_eq (g : Graph) (u : CompilationUnit α) : shares g u = pure (Pch.shares g u) := by
  rw [shares, Pch.shares]
  split
  next => rfl
  next h =>
    have hpos : 0 < (g.dependencies u.path).length := by
      rw [not_or, List.isEmpty_iff] at h
      exact List.length_pos_of_ne_nil h.2
    rw [divide_count _ hpos, pure_bind]

theorem collected_eq (t : Trace α) (g : Graph) : collected t g = pure (Pch.collected t g) := by
  rw [collected, mapM_eq_pure fun u _ => shares_eq g u, pure_bind, Pch.collected,
    List.flatMap_def]

theorem perFileCosts_eq (t : Trace α) (g : Graph) :
    perFileCosts t g = pure (Pch.perFileCosts t g) := by
  simp only [perFileCosts, collected_eq, divideIfAny_eq, pure_bind]
  rw [mapM_eq_pure fun _ _ => rfl, pure_bind]
  refine congrArg pure (Data.Value.ofList_of_perm ?_)
  rw [Pch.perFileCosts, Std.ExtTreeMap.toList_map]

@[simp] theorem usageRatio_eq (g : Graph) (header : String) (units : Nat) :
    usageRatio g header units = pure (Pch.usageRatio g header units : α) := by
  rw [usageRatio, Pch.usageRatio]
  split
  next => rfl
  next h => exact divide_count _ (Nat.pos_of_ne_zero h)

end Costs

/-! ## Candidates -/

section Candidates

variable {α : Type} [Scalar α]

def candidate (units : Nat) (costs : Table α) (header : String) (count : Nat) :
    Except Fault (Pch.Candidate α) := do
  let cost := Pch.costOf costs header
  let ratio ← divide (count : α) (units : α)
  let seconds ← divide cost (1000.0 : α)
  pure
    { header
      inclusionCount := count
      cost
      savings := Pch.savedBy cost count
      benefit := ratio * seconds * (count : α) }

def ranked (t : Trace α) (g : Graph) (ratio : α) : Except Fault (List (Pch.Candidate α)) :=
  let units := t.units.length
  if units = 0 then pure []
  else do
    let counts ← inclusions g
    let costs ← perFileCosts t g
    let flagged := g.flaggedHeaders
    let selected := counts.toList.filter fun (header, count) =>
      Pch.eligible units ratio flagged header count
    let all ← selected.mapM fun (header, count) => candidate units costs header count
    pure (all.mergeSort fun a b => Scalar.descending a.benefit b.benefit)

def candidates (t : Trace α) (g : Graph) (count : Nat) (ratio : α) :
    Except Fault (List (Pch.Candidate α)) := do
  let all ← ranked t g ratio
  pure (all.take count)

def additions (t : Trace α) (g : Graph) (current : List String) (count : Nat) (ratio : α) :
    Except Fault (List (Pch.Candidate α)) := do
  let best ← candidates t g count ratio
  pure (best.filter fun c => !current.contains c.header)

def rarelyUsed (t : Trace α) (g : Graph) (current : List String) : Except Fault (List String) :=
  let units := t.units.length
  if units = 0 then pure []
  else current.filterM fun h => do
    let ratio ← usageRatio g h units
    pure (decide (ratio < (Pch.rareRatio : α)))

def estimateSavings (t : Trace α) (g : Graph) (headers : List String) : Except Fault α :=
  if headers.isEmpty then pure 0.0
  else do
    let counts ← inclusions g
    let costs ← perFileCosts t g
    pure (Scalar.sum (headers.map fun h =>
      Pch.savedBy (Pch.costOf costs h) (Pch.inclusionCount counts h)))

variable [Scalar.Counting α]

theorem candidate_eq {units : Nat} (hu : 0 < units) (costs : Table α) (header : String)
    (count : Nat) :
    candidate units costs header count = pure (Pch.Candidate.of units costs header count) := by
  rw [candidate, divide_count _ hu, pure_bind, divide_eq Scalar.Counting.thousand_not_zero,
    pure_bind]
  rfl

variable {g : Graph} (hg : Manageable g)

include hg

theorem ranked_eq (t : Trace α) (ratio : α) : ranked t g ratio = pure (Pch.ranked t g ratio) := by
  simp only [ranked, Pch.ranked]
  split
  next => rfl
  next hu =>
    rw [inclusions_eq hg, pure_bind, perFileCosts_eq, pure_bind,
      mapM_eq_pure fun p _ => candidate_eq (Nat.pos_of_ne_zero hu) _ p.1 p.2, pure_bind]

theorem candidates_eq (t : Trace α) (count : Nat) (ratio : α) :
    candidates t g count ratio = pure (Pch.candidates t g count ratio) := by
  rw [candidates, ranked_eq hg, pure_bind, Pch.candidates]

theorem additions_eq (t : Trace α) (current : List String) (count : Nat) (ratio : α) :
    additions t g current count ratio = pure (Pch.additions t g current count ratio) := by
  rw [additions, candidates_eq hg, pure_bind, Pch.additions]

theorem estimateSavings_eq (t : Trace α) (headers : List String) :
    estimateSavings t g headers = pure (Pch.estimateSavings t g headers) := by
  rw [estimateSavings, Pch.estimateSavings]
  split
  next => rfl
  next => rw [inclusions_eq hg, pure_bind, perFileCosts_eq, pure_bind]

omit hg in
theorem rarelyUsed_eq (t : Trace α) (g : Graph) (current : List String) :
    rarelyUsed t g current = pure (Pch.rarelyUsed t g current) := by
  simp only [rarelyUsed, Pch.rarelyUsed, usageRatio_eq, pure_bind]
  split
  next => rfl
  next => exact filterM_eq_pure fun h _ => rfl

end Candidates

/-! ## Existing headers and plans -/

section Plans

variable {α : Type} [Scalar α]

def effectiveness (t : Trace α) (file : String) :
    Except Fault (Except AnalysisError (Pch.Effectiveness α)) :=
  match t.findUnit? file with
  | none => pure (.error (Pch.notBuilt file))
  | some unit => do
    let users ← countIf (fun u => u.directIncludes.contains file) t.units
    let share ← divide (users : α) (t.units.length : α)
    let saved := (users : α) * unit.total * Pch.recoverable
    let savedPerFile ← divideIfAny saved 0.0 users
    pure (.ok
      { file
        buildTime := unit.total
        users
        hitRate := share * (100.0 : α)
        totalSaved := saved
        savedPerFile })

/-- The cost of a header counts only where its ratio does not decide. -/
def isRemovable (g : Graph) (units : Nat) (costs : Table α) (header : String) :
    Except Fault Bool := do
  let ratio : α ← usageRatio g header units
  pure (decide (ratio < Pch.unusedRatio) ||
    (decide (Pch.costOf costs header < Pch.cheapCost) && decide (ratio ≤ Pch.cheapRatio)))

def removals (t : Trace α) (g : Graph) (current : List String) : Except Fault (List String) :=
  let units := t.units.length
  if units = 0 then pure []
  else do
    let costs ← perFileCosts t g
    current.filterM (isRemovable g units costs)

def plan (p : Pch.Planner α) (t : Trace α) (g : Graph) (current : List String) :
    Except Fault (Pch.Plan α) := do
  let added ← additions t g current p.count p.ratio
  let removed ← removals t g current
  let costs ← perFileCosts t g
  let names := added.map Pch.Candidate.header
  let resulting := distinct (current.filter (fun h => !removed.contains h) ++ names)
  let gained := Scalar.sum (added.map fun c => Pch.savedBy c.cost (g.dependents c.header).length)
  let lost := Scalar.sum (removed.map fun h => Pch.costOf costs h * Pch.removalCharge)
  pure
    { added := names
      removed
      resulting
      source := Pch.sourceText resulting
      savings := gained - lost }

variable [Scalar.Counting α]

theorem effectiveness_eq {t : Trace α} (ht : t.units.length < UInt64.size) (file : String) :
    effectiveness t file = pure (Pch.effectiveness t file) := by
  rw [effectiveness, Pch.effectiveness]
  cases hfound : t.findUnit? file with
  | none => rfl
  | some unit =>
    -- The trace has at least the unit that was found.
    have hpos : 0 < t.units.length := List.length_pos_of_mem (List.mem_of_find?_eq_some hfound)
    simp only [countIf_eq ht, divide_count _ hpos, divideIfAny_eq, pure_bind]

theorem removals_eq (t : Trace α) (g : Graph) (current : List String) :
    removals t g current = pure (Pch.Planner.removals t g current) := by
  simp only [removals, Pch.Planner.removals]
  split
  next => rfl
  next =>
    rw [perFileCosts_eq, pure_bind]
    refine filterM_eq_pure fun h _ => ?_
    rw [isRemovable, usageRatio_eq, pure_bind, Pch.isRemovable]

theorem plan_eq {g : Graph} (hg : Manageable g) (p : Pch.Planner α) (t : Trace α)
    (current : List String) : plan p t g current = pure (p.plan t g current) := by
  rw [plan, additions_eq hg, pure_bind, removals_eq, pure_bind, perFileCosts_eq, pure_bind]
  rfl

end Plans

end BuildAdvisor.Checked
