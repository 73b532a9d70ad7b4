import BuildAdvisor.Trace.Basic

/-!
What a header costs.

* `inclusions` — how many edges lead to each header;
* `perFileCosts` — the preprocessing time that one including file spends on each header;
* `usageRatio` — the share of the units that depend on a header.

The preprocessing time of a unit is divided evenly among its edges; what a header collects is
divided by the number of edges into it.
-/

set_option autoImplicit false

namespace BuildAdvisor.Pch

def inclusions (g : Graph) : Table Nat :=
  (g.edges.map Edge.target).foldl
    (fun table target => table.alter target fun n => some (n.getD 0 + 1)) ∅

def inclusionCount (table : Table Nat) (header : String) : Nat :=
  table.getD header 0

variable {α : Type} [Scalar α]

/-- The parts of a unit's preprocessing time, one for each edge of the unit. -/
def shares (g : Graph) (u : CompilationUnit α) : List (String × α) :=
  let targets := g.dependencies u.path
  if u.preprocessing ≤ 0.0 ∨ targets.isEmpty then []
  else
    let share := u.preprocessing / (targets.length : α)
    targets.map fun target => (target, share)

/-- What each header collects from all units. -/
def collected (t : Trace α) (g : Graph) : Table α :=
  (t.units.flatMap (shares g)).foldl
    (fun table (header, share) => table.alter header fun x => some (x.getD 0.0 + share)) ∅

def perFileCosts (t : Trace α) (g : Graph) : Table α :=
  (collected t g).map fun header total =>
    let count := (g.dependents header).length
    if 0 < count then total / (count : α) else total

/-- A header that no unit pays for costs nothing. -/
def costOf (costs : Table α) (header : String) : α :=
  costs.getD header 0.0

/-- Zero where there are no units. -/
def usageRatio (g : Graph) (header : String) (units : Nat) : α :=
  if units = 0 then 0.0 else ((g.dependents header).length : α) / (units : α)

/-- The part of a header's cost that precompiling it saves. -/
def recoverable : α := 0.8

/-- The cost of a header, paid once for each of `count` inclusions, as far as it is saved. -/
def savedBy (cost : α) (count : Nat) : α :=
  cost * (count : α) * recoverable

/-- What precompiling the headers saves. -/
def estimateSavings (t : Trace α) (g : Graph) (headers : List String) : α :=
  if headers.isEmpty then 0.0
  else
    let counts := inclusions g
    let costs := perFileCosts t g
    Scalar.sum (headers.map fun h => savedBy (costOf costs h) (inclusionCount counts h))

end BuildAdvisor.Pch
