import BuildAdvisor.Proofs.Rational
import BuildAdvisor.Proofs.Table
import BuildAdvisor.Template.Hotspot

/-!
A hotspot holds the instantiations of its name, and nothing else.

* `recordsOf` — the instantiations of a trace with some normalized name, in order;
* `gathered` — the hotspot that a list of instantiations of one name makes;
* `hotspotTable_get?` — the entry of a name is what its instantiations make, however those of
  other names stand between them;
* `exists_hotspot`, `eq_of_mem_hotspots` — every instantiation has a hotspot, and a name one;
* `totalTime` — the time of a name over exact rationals, which its hotspot has.
-/

set_option autoImplicit false

namespace BuildAdvisor.Template

section Records

variable {α : Type} [Scalar α]

def hasName (name : String) (r : String × Instantiation α) : Bool :=
  normalize r.2.name == name

def recordsOf (t : Trace α) (name : String) : List (String × Instantiation α) :=
  (instantiations t).filter (hasName name)

/-- Times are added from left to right. -/
def timeOf (records : List (String × Instantiation α)) : α :=
  records.foldl (fun time r => time + r.2.time) 0.0

/-- The stack and the unit are those of the first instantiation. -/
def gathered (name : String) : List (String × Instantiation α) → Option (Hotspot α)
  | [] => none
  | first :: rest =>
    some
      { name
        time := timeOf (first :: rest)
        count := (first :: rest).length
        stack := first.2.stack
        firstUnit := first.1 }

theorem gathered_append_singleton (name : String) (records : List (String × Instantiation α))
    (r : String × Instantiation α) :
    gathered name (records ++ [r]) =
      let h := (gathered name records).getD ⟨name, 0.0, 0, r.2.stack, r.1⟩
      some { h with time := h.time + r.2.time, count := h.count + 1 } := by
  cases records with
  | nil => rfl
  | cons first rest =>
    simp [gathered, timeOf]

theorem record_get? (table : Table (Hotspot α)) (r : String × Instantiation α) (name : String) :
    (record table r.1 r.2)[name]? =
      if hasName name r then
        let h := table[name]?.getD ⟨name, 0.0, 0, r.2.stack, r.1⟩
        some { h with time := h.time + r.2.time, count := h.count + 1 }
      else table[name]? := by
  rw [record, Std.ExtTreeMap.getElem?_alter]
  by_cases hn : normalize r.2.name = name
  · subst hn
    simp [hasName]
  · simp [hasName, hn]

/-- The induction adds the last instantiation to the table that those before it have made. -/
theorem foldl_record_get? (records : List (String × Instantiation α)) (name : String) :
    (records.foldl (fun table r => record table r.1 r.2) ∅)[name]? =
      gathered name (records.filter (hasName name)) := by
  induction records using List.reverseRecOn with
  | nil => rfl
  | append_singleton records r ih =>
    rw [List.foldl_append, List.foldl_cons, List.foldl_nil, record_get?, ih, List.filter_append]
    by_cases hn : hasName name r = true
    · rw [if_pos hn, List.filter_cons_of_pos hn, List.filter_nil, gathered_append_singleton]
    · rw [if_neg hn, List.filter_cons_of_neg hn, List.filter_nil, List.append_nil]

theorem hotspotTable_get? (t : Trace α) (name : String) :
    (hotspotTable t)[name]? = gathered name (recordsOf t name) :=
  foldl_record_get? (instantiations t) name

theorem of_gathered {name : String} {records : List (String × Instantiation α)}
    {h : Hotspot α} (hg : gathered name records = some h) :
    h.name = name ∧ h.time = timeOf records ∧ h.count = records.length := by
  cases records with
  | nil => cases hg
  | cons first rest =>
    obtain rfl := Option.some.inj hg
    exact ⟨rfl, rfl, rfl⟩

theorem mem_hotspots_iff {t : Trace α} {h : Hotspot α} :
    h ∈ hotspots t ↔ gathered h.name (recordsOf t h.name) = some h := by
  rw [hotspots, Table.mem_values_iff]
  constructor
  · rintro ⟨name, hname⟩
    rw [hotspotTable_get?] at hname
    obtain ⟨rfl, -, -⟩ := of_gathered hname
    exact hname
  · intro hg
    exact ⟨h.name, (hotspotTable_get? t h.name).trans hg⟩

omit [Scalar α] in
theorem mem_recordsOf {t : Trace α} {name : String} {r : String × Instantiation α} :
    r ∈ recordsOf t name ↔ r ∈ instantiations t ∧ normalize r.2.name = name := by
  simp [recordsOf, hasName]

theorem exists_hotspot {t : Trace α} {r : String × Instantiation α} (hr : r ∈ instantiations t) :
    ∃ h ∈ hotspots t, h.name = normalize r.2.name := by
  have hmem : r ∈ recordsOf t (normalize r.2.name) := mem_recordsOf.mpr ⟨hr, rfl⟩
  obtain ⟨h, hg⟩ : ∃ h, gathered (normalize r.2.name) (recordsOf t (normalize r.2.name)) =
      some h := by
    cases hrecords : recordsOf t (normalize r.2.name) with
    | nil =>
      rw [hrecords] at hmem
      cases hmem
    | cons first rest => exact ⟨_, rfl⟩
  obtain ⟨hname, -, -⟩ := of_gathered hg
  exact ⟨h, mem_hotspots_iff.mpr (by rw [hname]; exact hg), hname⟩

theorem eq_of_mem_hotspots {t : Trace α} {h h' : Hotspot α} (hm : h ∈ hotspots t)
    (hm' : h' ∈ hotspots t) (hname : h.name = h'.name) : h = h' := by
  have hg := mem_hotspots_iff.mp hm
  rw [hname, mem_hotspots_iff.mp hm'] at hg
  exact (Option.some.inj hg).symm

theorem mem_hotspots_of_mem_frequent {t : Trace α} {minimum : Nat} {h : Hotspot α}
    (hm : h ∈ frequent t minimum) : h ∈ hotspots t :=
  List.mem_of_mem_filter (List.mem_mergeSort.mp hm)

end Records

/-! ## Time -/

section Time

variable {t : Trace Rat}

/-- The time that a trace spends on the instantiations of a normalized name. -/
def totalTime (t : Trace Rat) (name : String) : Rat :=
  ((recordsOf t name).map fun r => r.2.time).sum

theorem timeOf_eq (records : List (String × Instantiation Rat)) :
    timeOf records = (records.map fun r => r.2.time).sum := by
  rw [timeOf, Rational.zero_literal, List.sum_eq_foldl, List.foldl_map]

theorem time_of_mem_hotspots {h : Hotspot Rat} (hm : h ∈ hotspots t) :
    h.time = totalTime t h.name := by
  obtain ⟨-, htime, -⟩ := of_gathered (mem_hotspots_iff.mp hm)
  exact htime.trans (timeOf_eq _)

theorem time_of_mem_frequent {minimum : Nat} {h : Hotspot Rat} (hm : h ∈ frequent t minimum) :
    h.time = totalTime t h.name :=
  time_of_mem_hotspots (mem_hotspots_of_mem_frequent hm)

theorem totalTime_nonneg (ht : ∀ u ∈ t.units, ∀ i ∈ u.instantiations, 0 ≤ i.time)
    (name : String) : 0 ≤ totalTime t name := by
  apply List.sum_nonneg
  intro x hx
  obtain ⟨r, hr, rfl⟩ := List.mem_map.mp hx
  obtain ⟨u, hu, hi⟩ := List.mem_flatMap.mp (List.mem_of_mem_filter hr)
  obtain ⟨i, hmem, rfl⟩ := List.mem_map.mp hi
  exact ht u hu i hmem

end Time

end BuildAdvisor.Template
