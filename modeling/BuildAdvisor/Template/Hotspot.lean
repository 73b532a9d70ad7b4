import BuildAdvisor.Template.Name
import BuildAdvisor.Trace.Basic

/-!
Where a build spends its time on templates.

* `Hotspot` — all instantiations of one normalized name together;
* `hotspots` — the hotspots of a trace, by name;
* `expensive`, `frequent` — the hotspots that cost most, and those instantiated most often;
* `overhead` — the share of a unit's time that goes into instantiations.
-/

set_option autoImplicit false

namespace BuildAdvisor.Template

/-- `stack` and `firstUnit` are those of the first instantiation in the order of the units. -/
structure Hotspot (α : Type) where
  name : String
  time : α
  count : Nat
  stack : List String
  firstUnit : String

variable {α : Type} [Scalar α]

def Hotspot.report [Numeral α] (h : Hotspot α) : String :=
  h.name ++ " (" ++ Numeral.places 1 h.time ++ s!" ms over {h.count} instantiations)"

/-- All instantiations of a trace, each with the path of its unit. -/
def instantiations (t : Trace α) : List (String × Instantiation α) :=
  t.units.flatMap fun u => u.instantiations.map fun i => (u.path, i)

/-- Adds an instantiation to the hotspot of its name, which begins with the first one. -/
def record (table : Table (Hotspot α)) (unit : String) (i : Instantiation α) :
    Table (Hotspot α) :=
  let name := normalize i.name
  table.alter name fun entry =>
    let h := entry.getD ⟨name, 0.0, 0, i.stack, unit⟩
    some { h with time := h.time + i.time, count := h.count + 1 }

def hotspotTable (t : Trace α) : Table (Hotspot α) :=
  (instantiations t).foldl (fun table (unit, i) => record table unit i) ∅

/-- In ascending order of names. -/
def hotspots (t : Trace α) : List (Hotspot α) :=
  (hotspotTable t).values

/-- Those that take at least `threshold`, the most expensive first, names ascending where times
are equal. -/
def expensive (t : Trace α) (count : Nat) (threshold : α) : List (Hotspot α) :=
  let selected := (hotspots t).filter fun h => decide (threshold ≤ h.time)
  (selected.mergeSort fun a b => Scalar.descending a.time b.time).take count

/-- Those worth one explicit instantiation: not of the standard library and with at least
`minimum` instantiations, the most frequent first. -/
def frequent (t : Trace α) (minimum : Nat) : List (Hotspot α) :=
  let selected := (hotspots t).filter fun h => decide (minimum ≤ h.count) && !isStandard h.name
  selected.mergeSort fun a b => decide (b.count ≤ a.count)

/-- In percent, between zero and a hundred. -/
def overhead (u : CompilationUnit α) : α :=
  if u.total ≤ 0.0 then 0.0
  else
    Scalar.clamp 0.0 100.0
      (Scalar.sum (u.instantiations.map Instantiation.time) / u.total * (100.0 : α))

end BuildAdvisor.Template
