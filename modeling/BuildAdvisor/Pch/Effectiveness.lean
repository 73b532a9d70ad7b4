import BuildAdvisor.Error
import BuildAdvisor.Pch.Cost

/-!
How well an existing precompiled header serves.

* `Effectiveness` — its users and what they save;
* `effectiveness` — measured in a trace that builds the header.
-/

set_option autoImplicit false

namespace BuildAdvisor.Pch

/-- `hitRate` is the percentage of units that use the header. -/
structure Effectiveness (α : Type) where
  file : String
  buildTime : α
  users : Nat
  hitRate : α
  totalSaved : α
  savedPerFile : α

variable {α : Type} [Scalar α]

def notBuilt (file : String) : AnalysisError :=
  .notFound ("PCH '" ++ file ++ "' is not built in this trace")

/-- Users are the units that name the header among their direct includes. -/
def effectiveness (t : Trace α) (file : String) : Except AnalysisError (Effectiveness α) :=
  match t.findUnit? file with
  | none => .error (notBuilt file)
  | some unit =>
    let users := (t.units.filter fun u => u.directIncludes.contains file).length
    let saved := (users : α) * unit.total * recoverable
    .ok
      { file
        buildTime := unit.total
        users
        hitRate := (users : α) / (t.units.length : α) * (100.0 : α)
        totalSaved := saved
        savedPerFile := if 0 < users then saved / (users : α) else 0.0 }

end BuildAdvisor.Pch
