import BuildAdvisor.Pch.Candidate

/-!
A plan for the precompiled header of a project.

* `Planner` — how many headers a plan adds, and how widely they have to be used;
* `Planner.plan` — what to add and what to remove, the resulting list and its source text;
* `sourceText` — the precompiled header that includes a list of headers;
* `Plan.report` — the plan as text.
-/

set_option autoImplicit false

namespace BuildAdvisor.Pch

structure Planner (α : Type) where
  count : Nat
  ratio : α

structure Plan (α : Type) where
  added : List String
  removed : List String
  resulting : List String
  source : String
  savings : α

/-- A fixed opening, then one include directive a header. -/
def sourceText (headers : List String) : String :=
  headers.foldl (fun text h => text ++ HeaderPath.includeDirective h ++ "\n")
    "// Precompiled header generated by buildlens\n#pragma once\n\n"

variable {α : Type} [Scalar α]

def Planner.default : Planner α := ⟨10, 0.3⟩

/-- A header that fewer units use is removed whatever it costs. -/
def unusedRatio : α := 0.15

/-- A header that costs less per file stays only if more than `cheapRatio` of the units use
it. -/
def cheapCost : α := 50.0

def cheapRatio : α := 0.5

/-- The part of its cost that removing a header is charged. -/
def removalCharge : α := 0.1

def isRemovable (g : Graph) (units : Nat) (costs : Table α) (header : String) : Bool :=
  let ratio : α := usageRatio g header units
  decide (ratio < unusedRatio) ||
    (decide (costOf costs header < cheapCost) && decide (ratio ≤ cheapRatio))

namespace Planner

def additions (p : Planner α) (t : Trace α) (g : Graph) (current : List String) :
    List (Candidate α) :=
  Pch.additions t g current p.count p.ratio

/-- The headers to remove, as often as they are listed. -/
def removals (t : Trace α) (g : Graph) (current : List String) : List String :=
  let units := t.units.length
  if units = 0 then []
  else
    let costs := perFileCosts t g
    current.filter (isRemovable g units costs)

def plan (p : Planner α) (t : Trace α) (g : Graph) (current : List String) : Plan α :=
  let added := p.additions t g current
  let removed := removals t g current
  let costs := perFileCosts t g
  let names := added.map Candidate.header
  let resulting := distinct (current.filter (fun h => !removed.contains h) ++ names)
  let gained := Scalar.sum (added.map fun c => savedBy c.cost (g.dependents c.header).length)
  let lost := Scalar.sum (removed.map fun h => costOf costs h * removalCharge)
  { added := names
    removed
    resulting
    source := sourceText resulting
    savings := gained - lost }

end Planner

def Plan.report [Numeral α] (p : Plan α) : String :=
  let head := s!"PCH plan: +{p.added.length} / -{p.removed.length} headers, estimated savings " ++
    Numeral.places 1 p.savings ++ " ms\n"
  let added := p.added.foldl (fun text h => text ++ "  + " ++ h ++ "\n") head
  p.removed.foldl (fun text h => text ++ "  - " ++ h ++ "\n") added

end BuildAdvisor.Pch
