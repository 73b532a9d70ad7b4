import BuildAdvisor.Advisor.BuiltIn
import BuildAdvisor.Proofs.Checked.Pch
import BuildAdvisor.Proofs.Checked.TemplateName
import BuildAdvisor.Proofs.Template.Hotspot

/-!
Findings about precompiled headers and templates, with the faults of their operations.

* `pchFindings`, `pchChanges` — headers to add and to remove;
* `hotspotTable`, `frequent` — instantiations counted by normal name;
* `InMemory` — a trace whose lists and names are not longer than counters reach;
* `NamesFit` — names with lists whose brackets can be counted, without which `hotspotTable` stops;
* `explicitInstantiations` — templates to instantiate once.

A field without a division or a bound in it is taken over from the finding itself.
-/

set_option autoImplicit false

namespace BuildAdvisor.Checked

open BuildAdvisor.Advisor (Draft Options)

/-! ## Precompiled headers -/

section Pch

variable {α : Type} [Scalar α] [Numeral α]

def additionFinding (units : Nat) (g : Graph) (c : Pch.Candidate α) :
    Except Fault (Finding α) := do
  let ratio ← divide (c.inclusionCount : α) (units : α)
  let confidence ← clampUnit ratio
  pure { Advisor.additionFinding units g c with confidence }

def removalFinding (units : Nat) (costs : Table α) (g : Graph) (current : List String)
    (header : String) : Except Fault (Finding α) := do
  let ratio : α ← usageRatio g header units
  let confidence ← clampUnit ((1.0 : α) - ratio)
  pure { Advisor.removalFinding units costs g current header with confidence }

def pchFindings (t : Trace α) (o : Options α) : Except Fault (List (Finding α)) :=
  let g := t.graph
  let units := t.units.length
  if units = 0 then pure []
  else do
    let candidates ← additions t g o.currentPch o.pchCount o.pchRatio
    let added ← candidates.mapM (additionFinding units g)
    let costs ← perFileCosts t g
    let headers ← rarelyUsed t g o.currentPch
    let removed ← headers.mapM (removalFinding units costs g o.currentPch)
    pure (added ++ removed)

def pchChanges (t : Trace α) (o : Options α) :
    Except Fault (Except AnalysisError (List (Draft α))) := do
  let findings ← pchFindings t o
  pure (.ok (findings.map Draft.unnamed))

variable [Scalar.Counting α]

theorem additionFinding_eq {units : Nat} (hu : 0 < units) (g : Graph) (c : Pch.Candidate α) :
    additionFinding units g c = pure (Advisor.additionFinding units g c) := by
  simp only [additionFinding, divide_count _ hu, clampUnit_eq, pure_bind]
  rfl

theorem removalFinding_eq (units : Nat) (costs : Table α) (g : Graph) (current : List String)
    (header : String) :
    removalFinding units costs g current header =
      pure (Advisor.removalFinding units costs g current header) := by
  simp only [removalFinding, usageRatio_eq, clampUnit_eq, pure_bind]
  rfl

theorem pchFindings_eq {t : Trace α} (hg : Manageable t.graph) (o : Options α) :
    pchFindings t o = pure (Advisor.pchFindings t o) := by
  simp only [pchFindings]
  split
  next hu =>
    simp [Advisor.pchFindings, Pch.additions, Pch.candidates, Pch.ranked, Pch.rarelyUsed, hu]
  next hu =>
    have hpos := Nat.pos_of_ne_zero hu
    rw [additions_eq hg, pure_bind, mapM_eq_pure fun c _ => additionFinding_eq hpos t.graph c,
      pure_bind, perFileCosts_eq, pure_bind, rarelyUsed_eq, pure_bind,
      mapM_eq_pure fun h _ => removalFinding_eq _ _ _ _ h, pure_bind]
    rfl

theorem pchChanges_eq {t : Trace α} (hg : Manageable t.graph) (o : Options α) :
    pchChanges t o = pure (Advisor.pchChanges.produce t o) := by
  rw [pchChanges, pchFindings_eq hg, pure_bind]
  rfl

end Pch

/-! ## Templates -/

section Template

variable {α : Type} [Scalar α]

def record (table : Table (Template.Hotspot α)) (unit : String) (i : Instantiation α) :
    Except Fault (Table (Template.Hotspot α)) := do
  let name ← normalName .fault UInt64.size i.name
  let h := table[name]?.getD ⟨name, 0.0, 0, i.stack, unit⟩
  let count ← increment UInt64.size h.count
  pure (table.insert name { h with time := h.time + i.time, count })

def hotspotTable (t : Trace α) : Except Fault (Table (Template.Hotspot α)) :=
  (Template.instantiations t).foldlM (fun table (unit, i) => record table unit i) ∅

def frequent (t : Trace α) (minimum : Nat) : Except Fault (List (Template.Hotspot α)) := do
  let table ← hotspotTable t
  let selected := table.values.filter fun h =>
    decide (minimum ≤ h.count) && !Template.isStandard h.name
  pure (selected.mergeSort fun a b => decide (b.count ≤ a.count))

def instantiationFinding [Numeral α] (h : Template.Hotspot α) : Except Fault (Finding α) := do
  let count : α := ((max h.count 1 : Nat) : α)
  let savings ← divide (h.time * (count - (1.0 : α))) count
  let share ← divide (1.0 : α) count
  let confidence ← clampUnit ((1.0 : α) - share)
  pure { Advisor.instantiationFinding h with
    priority := Priority.ofSavings savings
    confidence
    savings }

def explicitInstantiations [Numeral α] (t : Trace α) (o : Options α) :
    Except Fault (Except AnalysisError (List (Draft α))) := do
  let hotspots ← frequent t o.templateMinCount
  let findings ← hotspots.mapM instantiationFinding
  pure (.ok (findings.map Draft.unnamed))

theorem count_gathered_le (name : String) (records : List (String × Instantiation α))
    (fallback : Template.Hotspot α) (hf : fallback.count = 0) :
    ((Template.gathered name records).getD fallback).count ≤ records.length := by
  cases records with
  | nil => exact hf.le
  | cons first rest => exact le_rfl

/-- Lists and names in the memory of a machine of 64 bits are this short. -/
structure InMemory (t : Trace α) : Prop where
  units_lt : t.units.length < UInt64.size
  instantiations_lt : (Template.instantiations t).length < UInt64.size
  names_lt : ∀ r ∈ Template.instantiations t, r.2.name.utf8ByteSize < UInt64.size

/-- The brackets in the names of a trace can be counted. -/
def NamesFit (t : Trace α) : Prop :=
  ∀ r ∈ Template.instantiations t, ListFits r.2.name.toList

theorem record_eq {table : Table (Template.Hotspot α)} {unit : String} {i : Instantiation α}
    (hlen : i.name.utf8ByteSize < UInt64.size) (hfit : ListFits i.name.toList)
    (h : (table[Template.normalize i.name]?.getD
      ⟨Template.normalize i.name, 0.0, 0, i.stack, unit⟩).count + 1 < UInt64.size) :
    record table unit i = pure (Template.record table unit i) := by
  simp only [record, normalName_eq hlen (.inr hfit), pure_bind, increment_eq h, Template.record,
    Table.alter_some]

theorem record_overflow {i : Instantiation α} (hlen : i.name.utf8ByteSize < UInt64.size)
    (hfit : ¬ ListFits i.name.toList) (table : Table (Template.Hotspot α)) (unit : String) :
    record table unit i = .error .overflow := by
  rw [record, normalName_overflow hlen hfit]
  rfl

def recorded (records : List (String × Instantiation α)) : Table (Template.Hotspot α) :=
  records.foldl (fun table (unit, i) => Template.record table unit i) ∅

/-- No name has more instantiations than there were before. -/
theorem record_recorded {done todo : List (String × Instantiation α)}
    {r : String × Instantiation α} (h : (done ++ r :: todo).length < UInt64.size)
    (hlen : r.2.name.utf8ByteSize < UInt64.size) (hfit : ListFits r.2.name.toList) :
    record (recorded done) r.1 r.2 = pure (recorded (done ++ [r])) := by
  have hroom := count_gathered_le (Template.normalize r.2.name)
    (done.filter (Template.hasName (Template.normalize r.2.name)))
    ⟨Template.normalize r.2.name, 0.0, 0, r.2.stack, r.1⟩ rfl
  have hle := List.length_filter_le (Template.hasName (Template.normalize r.2.name)) done
  rw [List.length_append, List.length_cons] at h
  rw [recorded, recorded, List.foldl_append, List.foldl_cons, List.foldl_nil]
  refine record_eq hlen hfit ?_
  rw [Template.foldl_record_get?]
  omega

section Names

variable {t : Trace α}

theorem hotspotTable_eq (ht : InMemory t) (hn : NamesFit t) :
    hotspotTable t = pure (Template.hotspotTable t) := by
  refine foldlM_eq_pure recorded _ fun done r todo he => ?_
  have hr : r ∈ Template.instantiations t := by simp [he]
  exact record_recorded (he ▸ ht.instantiations_lt) (ht.names_lt r hr) (hn r hr)

theorem hotspotTable_overflow (ht : InMemory t) (hn : ¬ NamesFit t) :
    hotspotTable t = .error .overflow := by
  refine foldlM_eq_error recorded _ ?_ ?_ hn
  · intro done r todo he hfit
    exact record_recorded (he ▸ ht.instantiations_lt) (ht.names_lt r (by simp [he])) hfit
  · intro done r todo he hfit
    exact record_overflow (ht.names_lt r (by simp [he])) hfit _ _

theorem frequent_eq (ht : InMemory t) (hn : NamesFit t) (minimum : Nat) :
    frequent t minimum = pure (Template.frequent t minimum) := by
  rw [frequent, hotspotTable_eq ht hn, pure_bind]
  rfl

end Names

theorem instantiationFinding_eq [Scalar.Counting α] [Numeral α] (h : Template.Hotspot α) :
    instantiationFinding h = pure (Advisor.instantiationFinding h) := by
  have hpos : 0 < max h.count 1 := Nat.lt_of_lt_of_le Nat.one_pos (Nat.le_max_right _ _)
  simp only [instantiationFinding, divide_count _ hpos, clampUnit_eq, pure_bind]
  rfl

theorem explicitInstantiations_eq [Scalar.Counting α] [Numeral α] {t : Trace α}
    (ht : InMemory t) (hn : NamesFit t) (o : Options α) :
    explicitInstantiations t o = pure (Advisor.explicitInstantiations.produce t o) := by
  rw [explicitInstantiations, frequent_eq ht hn, pure_bind,
    mapM_eq_pure fun h _ => instantiationFinding_eq h, pure_bind, List.map_map]
  rfl

theorem explicitInstantiations_overflow [Numeral α] {t : Trace α} (ht : InMemory t)
    (hn : ¬ NamesFit t) (o : Options α) : explicitInstantiations t o = .error .overflow := by
  rw [explicitInstantiations, frequent, hotspotTable_overflow ht hn]
  rfl

end Template

end BuildAdvisor.Checked
