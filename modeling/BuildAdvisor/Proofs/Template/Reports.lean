import BuildAdvisor.Proofs.Scalar.Ranking
import BuildAdvisor.Proofs.Template.Hotspot

/-!
The reports of a trace's templates as selections from its hotspots.

* `hotspots_names`, `hotspots_ascending` — the hotspots have the keys of their table as names;
* `name_mem_hotspots_iff`, `sum_hotspot_counts` — every instantiation is in one of them, and is
  counted once;
* `first_of_mem_hotspots` — unit and stack are those of the first instantiation;
* `OftenerThan`, `frequent_perm`, `frequent_ordered` — the report of the frequent ones, and its
  order, in which no two hotspots are tied;
* `expensive_ranking` — the ranking that the report of the expensive ones is the beginning of;
* `hotspots_exact` — all of this for the traces of a build.
-/

set_option autoImplicit false

namespace BuildAdvisor.Template

/-! ## Hotspots -/

section Hotspots

variable {α : Type} [Scalar α] (t : Trace α)

theorem hotspots_names : (hotspots t).map Hotspot.name = (hotspotTable t).keys := by
  rw [hotspots, Table.values_eq, ← Std.ExtTreeMap.map_fst_toList_eq_keys, List.map_map]
  apply List.map_congr_left
  intro p hp
  have hentry : (hotspotTable t)[p.1]? = some p.2 :=
    Std.ExtTreeMap.mem_toList_iff_getElem?_eq_some.mp hp
  rw [hotspotTable_get?] at hentry
  exact (of_gathered hentry).1

theorem hotspots_ascending : (hotspots t).Pairwise fun a b => a.name < b.name := by
  rw [← List.pairwise_map, hotspots_names]
  exact Table.keys_ascending _

theorem hotspots_names_nodup : ((hotspots t).map Hotspot.name).Nodup := by
  rw [hotspots_names]
  exact Std.ExtTreeMap.nodup_keys

omit [Scalar α] in
theorem length_instantiations :
    (instantiations t).length = (t.units.map fun u => u.instantiations.length).sum := by
  simp [instantiations, List.length_flatMap]

/-- The instantiations are split by name, and each part is the hotspot of its name. -/
theorem sum_hotspot_counts :
    ((hotspots t).map Hotspot.count).sum = (instantiations t).length := by
  have hcount : (hotspots t).map Hotspot.count =
      ((hotspots t).map Hotspot.name).map fun name => (recordsOf t name).length := by
    rw [List.map_map]
    apply List.map_congr_left
    intro h hm
    exact (of_gathered (mem_hotspots_iff.mp hm)).2.2
  have hcover : ∀ r ∈ instantiations t, normalize r.2.name ∈ (hotspots t).map Hotspot.name := by
    intro r hr
    obtain ⟨h, hm, hname⟩ := exists_hotspot hr
    exact List.mem_map.mpr ⟨h, hm, hname⟩
  have hsum := sum_fibres (fun r : String × Instantiation α => normalize r.2.name) _
    (instantiations t) (hotspots_names_nodup t) hcover
  rw [hcount]
  exact hsum

variable {t}

theorem first_of_mem_hotspots {h : Hotspot α} (hm : h ∈ hotspots t) :
    (recordsOf t h.name).head?.map (fun r => (r.1, r.2.stack)) = some (h.firstUnit, h.stack) := by
  have hg := mem_hotspots_iff.mp hm
  cases hrecords : recordsOf t h.name with
  | nil =>
    rw [hrecords] at hg
    cases hg
  | cons first rest =>
    rw [hrecords] at hg
    have hfirst : (gathered h.name (first :: rest)).map (fun h => (h.firstUnit, h.stack)) =
        some (first.1, first.2.stack) := rfl
    rw [hg] at hfirst
    exact hfirst.symm

theorem name_mem_hotspots_iff {name : String} :
    name ∈ (hotspots t).map Hotspot.name ↔ ∃ r ∈ instantiations t, normalize r.2.name = name := by
  constructor
  · rintro hname
    obtain ⟨h, hm, rfl⟩ := List.mem_map.mp hname
    cases hrecords : recordsOf t h.name with
    | nil =>
      have hfirst := first_of_mem_hotspots hm
      rw [hrecords] at hfirst
      cases hfirst
    | cons first rest =>
      have hmem : first ∈ recordsOf t h.name := by
        rw [hrecords]
        exact List.mem_cons_self
      exact ⟨first, mem_recordsOf.mp hmem⟩
  · rintro ⟨r, hr, rfl⟩
    obtain ⟨h, hm, hname⟩ := exists_hotspot hr
    exact List.mem_map.mpr ⟨h, hm, hname⟩

end Hotspots

/-! ## The most frequent -/

section Frequent

variable {α : Type} [Scalar α] (t : Trace α) (minimum : Nat)

def OftenerThan (a b : Hotspot α) : Prop :=
  b.count < a.count ∨ a.count = b.count ∧ a.name < b.name

theorem frequent_perm :
    (frequent t minimum).Perm
      ((hotspots t).filter fun h => decide (minimum ≤ h.count) && !isStandard h.name) :=
  List.mergeSort_perm _ _

theorem frequent_ordered : (frequent t minimum).Pairwise OftenerThan := by
  have htrans : ∀ a b c : Hotspot α, decide (b.count ≤ a.count) = true →
      decide (c.count ≤ b.count) = true → decide (c.count ≤ a.count) = true := by
    intro a b c hab hbc
    exact decide_eq_true ((of_decide_eq_true hbc).trans (of_decide_eq_true hab))
  have htotal : ∀ a b : Hotspot α,
      (decide (b.count ≤ a.count) || decide (a.count ≤ b.count)) = true := by
    intro a b
    rw [Bool.or_eq_true, decide_eq_true_iff, decide_eq_true_iff]
    exact Nat.le_total _ _
  have hascending := (hotspots_ascending t).filter fun h =>
    decide (minimum ≤ h.count) && !isStandard h.name
  refine (StableSort.pairwise_mergeSort_tied htrans htotal hascending).imp fun {a b} hab => ?_
  simp only [decide_eq_true_eq] at hab
  rcases Nat.lt_or_eq_of_le hab.1 with hlt | heq
  · exact .inl hlt
  · exact .inr ⟨heq.symm, hab.2 heq.ge⟩

end Frequent

/-! ## The most expensive -/

section Expensive

variable (t : Trace Float)

theorem expensive_ranking (count : Nat) (threshold : Float) :
    ∃ ranking : List (Hotspot Float),
      ranking.Perm ((hotspots t).filter fun h => decide (threshold ≤ h.time)) ∧
      ranking.Pairwise (Double.Outranks Hotspot.time Hotspot.name) ∧
      expensive t count threshold = ranking.take count := by
  have hascending := (hotspots_ascending t).filter fun h => decide (threshold ≤ h.time)
  have horder := Double.pairwise_outranks Hotspot.time Hotspot.name hascending
  exact ⟨_, List.mergeSort_perm _ _, horder, rfl⟩

/-- Each normalized name of a trace has one hotspot, which counts its instantiations, adds up their
times from left to right, and names the first of them, so that all counts together are the number
of instantiations.  A report of the expensive ones is the beginning of their ranking, one of the
frequent ones the whole of it. -/
theorem hotspots_exact (t : Trace Float) :
    ((hotspots t).map Hotspot.name).Nodup ∧
    (∀ name, name ∈ (hotspots t).map Hotspot.name ↔
      ∃ r ∈ instantiations t, normalize r.2.name = name) ∧
    (∀ h ∈ hotspots t,
      h.count = (recordsOf t h.name).length ∧
      h.time = (recordsOf t h.name).foldl (fun time r => time + r.2.time) 0.0 ∧
      (recordsOf t h.name).head?.map (fun r => (r.1, r.2.stack)) =
        some (h.firstUnit, h.stack)) ∧
    ((hotspots t).map Hotspot.count).sum = (t.units.map fun u => u.instantiations.length).sum ∧
    (∀ count threshold, ∃ ranking : List (Hotspot Float),
      ranking.Perm ((hotspots t).filter fun h => decide (threshold ≤ h.time)) ∧
      ranking.Pairwise (Double.Outranks Hotspot.time Hotspot.name) ∧
      expensive t count threshold = ranking.take count) ∧
    ∀ minimum,
      (frequent t minimum).Perm
        ((hotspots t).filter fun h => decide (minimum ≤ h.count) && !isStandard h.name) ∧
      (frequent t minimum).Pairwise OftenerThan := by
  refine ⟨hotspots_names_nodup t, fun _ => name_mem_hotspots_iff, ?_, ?_, expensive_ranking t,
    fun minimum => ⟨frequent_perm t minimum, frequent_ordered t minimum⟩⟩
  · intro h hm
    obtain ⟨-, htime, hcount⟩ := of_gathered (mem_hotspots_iff.mp hm)
    exact ⟨hcount, htime, first_of_mem_hotspots hm⟩
  · rw [sum_hotspot_counts, length_instantiations]

/-- One template written in two ways and in two units, beside one of the standard library. -/
def boxTrace : Trace Float :=
  { (Trace.empty : Trace Float) with
    units := [
      { (CompilationUnit.empty : CompilationUnit Float) with
        path := "draw.cpp"
        instantiations := [⟨"Box<int>", 2.0, ["draw"]⟩, ⟨"std::vector<int>", 5.0, []⟩] },
      { (CompilationUnit.empty : CompilationUnit Float) with
        path := "main.cpp"
        instantiations := [⟨"Box< char >", 3.0, ["main"]⟩] }] }

theorem boxTrace_hotspots :
    ∃ h ∈ hotspots boxTrace, h.name = "Box<T>" ∧ h.count = 2 ∧ h.time = 5.0 ∧
      h.firstUnit = "draw.cpp" ∧ h.stack = ["draw"] ∧ h ∈ frequent boxTrace 2 ∧
      ((hotspots boxTrace).map Hotspot.count).sum = 3 := by
  have hbox : ∃ r ∈ instantiations boxTrace, normalize r.2.name = "Box<T>" := by
    refine ⟨("main.cpp", ⟨"Box< char >", 3.0, ["main"]⟩), ?_, by decide +kernel⟩
    exact List.mem_cons_of_mem _ (List.mem_cons_of_mem _ List.mem_cons_self)
  obtain ⟨-, hnames, hentry, hsum, -, hfrequent⟩ := hotspots_exact boxTrace
  obtain ⟨h, hm, hname⟩ := List.mem_map.mp ((hnames "Box<T>").mpr hbox)
  obtain ⟨hcount, htime, hfirst⟩ := hentry h hm
  rw [hname] at hcount htime hfirst
  have htwo : h.count = 2 := hcount.trans (by decide +kernel)
  have hdraw : (h.firstUnit, h.stack) = ("draw.cpp", ["draw"]) :=
    Option.some.inj (hfirst.symm.trans (by decide +kernel))
  refine ⟨h, hm, hname, htwo, htime.trans (by decide +kernel), congrArg Prod.fst hdraw,
    congrArg Prod.snd hdraw, ?_, hsum⟩
  refine (hfrequent 2).1.mem_iff.mpr (List.mem_filter.mpr ⟨hm, ?_⟩)
  rw [htwo, hname]
  decide +kernel

end Expensive

end BuildAdvisor.Template
