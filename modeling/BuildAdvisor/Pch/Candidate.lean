import BuildAdvisor.HeaderPath
import BuildAdvisor.Pch.Cost

/-!
Headers worth precompiling.

* `Candidate` — a header with its cost and the benefit of precompiling it;
* `candidates` — the best of the headers that enough units include;
* `additions` — those of them that are not precompiled yet;
* `rarelyUsed` — precompiled headers that few units depend on.
-/

set_option autoImplicit false

namespace BuildAdvisor.Pch

structure Candidate (α : Type) where
  header : String
  inclusionCount : Nat
  cost : α
  savings : α
  benefit : α

variable {α : Type} [Scalar α]

/-- The benefit is the share of including files times the seconds that all of them spend. -/
def Candidate.of (units : Nat) (costs : Table α) (header : String) (count : Nat) : Candidate α :=
  let cost := costOf costs header
  let ratio := (count : α) / (units : α)
  { header
    inclusionCount := count
    cost
    savings := savedBy cost count
    benefit := ratio * (cost / (1000.0 : α)) * (count : α) }

/-- Enough inclusions, and a system header neither by its path nor by the word of any edge. -/
def eligible (units : Nat) (ratio : α) (flagged : Names) (header : String) (count : Nat) : Bool :=
  decide ((units : α) * ratio ≤ (count : α)) && !HeaderPath.isSystemHeader header &&
    !flagged.contains header

/-- All eligible headers, by descending benefit, names ascending where it is equal. -/
def ranked (t : Trace α) (g : Graph) (ratio : α) : List (Candidate α) :=
  let units := t.units.length
  if units = 0 then []
  else
    let costs := perFileCosts t g
    let flagged := g.flaggedHeaders
    let selected := (inclusions g).toList.filter fun (header, count) =>
      eligible units ratio flagged header count
    (selected.map fun (header, count) => Candidate.of units costs header count).mergeSort
      fun a b => Scalar.descending a.benefit b.benefit

def candidates (t : Trace α) (g : Graph) (count : Nat) (ratio : α) : List (Candidate α) :=
  (ranked t g ratio).take count

/-- The best candidates less those in the current list. -/
def additions (t : Trace α) (g : Graph) (current : List String) (count : Nat) (ratio : α) :
    List (Candidate α) :=
  (candidates t g count ratio).filter fun c => !current.contains c.header

/-- A header below this share of units is reported for removal. -/
def rareRatio : α := 0.10

def rarelyUsed (t : Trace α) (g : Graph) (current : List String) : List String :=
  let units := t.units.length
  if units = 0 then []
  else current.filter fun h => decide (usageRatio g h units < (rareRatio : α))

end BuildAdvisor.Pch
