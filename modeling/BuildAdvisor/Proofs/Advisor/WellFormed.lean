import BuildAdvisor.Proofs.Advisor.BuiltIn
import BuildAdvisor.Proofs.Config
import BuildAdvisor.Proofs.Pch.Savings
import BuildAdvisor.Proofs.Template.Hotspot

/-!
What holds of every finding of the built-in sources.

* `Finding.WellFormed` — a confidence between zero and one, savings of at least zero with the
  priority they deserve, and no file affected twice;
* `wellFormed_of_mem_splitSource`, `wellFormed_of_mem_pchFindings`,
  `wellFormed_of_mem_explicitInstantiations` — the findings of each source;
* `filesOf_addition`, `filesOf_removal` — the headers that the findings add and remove;
* `instantiationFinding_savings_lt` — an explicit instantiation does not save the whole time;
* `builtIn_wellFormed` — all of this in every run of the sources.
-/

set_option autoImplicit false

namespace BuildAdvisor

structure Finding.WellFormed (f : Finding Rat) : Prop where
  confidence_bounds : 0 ≤ f.confidence ∧ f.confidence ≤ 1
  savings_nonneg : 0 ≤ f.savings
  priority_eq : f.priority = Priority.ofSavings f.savings
  affectedFiles_nodup : f.affectedFiles.Nodup

namespace Advisor

/-! ## Header splits -/

section Splits

variable {κ : Type} [Scalar κ] [Exponential κ] [Numeral Rat] {σ : Type}
  {sample : Random.Sampler σ} {inspector : Symbols.Inspector} {config : Split.Config Rat}
  {draws : String → σ}

theorem wellFormed_of_mem_splitSource (hconfig : config.fault? = none) {t : Trace Rat}
    {o : Options Rat} {d : Draft Rat}
    (h : d ∈ findingsOf t o (splitSource (Split.splitterOver κ sample inspector config draws))) :
    d.finding.WellFormed := by
  have hminimum : 0 ≤ config.minBenefit := by
    have hn := ((Split.Config.fault?_eq_none_iff config).mp hconfig).1
    rwa [Rational.zero_literal, not_lt] at hn
  obtain ⟨labels, m, -, -, hconfidence, -, h2⟩ := splitSource_confidence h
  obtain ⟨header, p, hp, hf⟩ := mem_splitSource h
  obtain ⟨symbols, cache, label, a⟩ := Split.exists_analysed κ hp
  constructor
  · have hpos : (0 : Rat) ≤ 1 / ((m + 1 : Nat) : Rat) ^ 2 := by positivity
    rw [hconfidence]
    exact ⟨hpos, (one_div_sq_le_quarter h2).trans (by norm_num)⟩
  · rw [hf]
    exact hminimum.trans (not_lt.mp a.worthwhile)
  · rw [hf]
    rfl
  · rw [hf]
    exact distinct_nodup _

end Splits

/-! ## Precompiled header -/

section Pch

variable {t : Trace Rat} {o : Options Rat}

theorem removalSavings_nonneg (header : String) :
    0 ≤ removalSavings t.units.length (Pch.perFileCosts t t.graph) t.graph header := by
  rw [removalSavings, unusedCharge]
  exact mul_nonneg (mul_nonneg (Pch.costOf_nonneg t t.graph header) (Nat.cast_nonneg _))
    (by norm_num)

variable [Numeral Rat]

theorem additionFinding_wellFormed {c : Pch.Candidate Rat}
    (hc : c ∈ Pch.ranked t t.graph o.pchRatio) :
    (additionFinding t.units.length t.graph c).WellFormed where
  confidence_bounds := Rational.clampUnit_bounds _
  savings_nonneg := Pch.savings_nonneg_of_mem_ranked t t.graph hc
  priority_eq := rfl
  affectedFiles_nodup := distinct_nodup _

theorem removalFinding_wellFormed (current : List String) (header : String) :
    (removalFinding t.units.length (Pch.perFileCosts t t.graph) t.graph current
      header).WellFormed where
  confidence_bounds := Rational.clampUnit_bounds _
  savings_nonneg := removalSavings_nonneg header
  priority_eq := rfl
  affectedFiles_nodup := List.nodup_nil

theorem wellFormed_of_mem_pchFindings {f : Finding Rat} (h : f ∈ pchFindings t o) :
    f.WellFormed := by
  rcases List.mem_append.mp h with h | h
  · obtain ⟨c, hc, rfl⟩ := List.mem_map.mp h
    exact additionFinding_wellFormed
      ((Pch.candidates_sublist t t.graph o.pchRatio o.pchCount).mem (List.mem_of_mem_filter hc))
  · obtain ⟨header, -, rfl⟩ := List.mem_map.mp h
    exact removalFinding_wellFormed o.currentPch header

end Pch

/-! ## Headers added and removed -/

section Files

variable {α : Type}

/-- The files of the findings of a kind, as often as they are found. -/
def filesOf (kind : SuggestionKind) (findings : List (Finding α)) : List String :=
  (findings.filter fun f => f.kind == kind).map Finding.file

theorem filesOf_append (kind : SuggestionKind) (fs gs : List (Finding α)) :
    filesOf kind (fs ++ gs) = filesOf kind fs ++ filesOf kind gs := by
  rw [filesOf, List.filter_append, List.map_append]
  rfl

theorem filesOf_of_kind_eq {kind : SuggestionKind} {fs : List (Finding α)}
    (h : ∀ f ∈ fs, f.kind = kind) : filesOf kind fs = fs.map Finding.file := by
  rw [filesOf, List.filter_eq_self.mpr fun f hf => by simp [h f hf]]

theorem filesOf_of_kind_ne {kind : SuggestionKind} {fs : List (Finding α)}
    (h : ∀ f ∈ fs, f.kind ≠ kind) : filesOf kind fs = [] := by
  rw [filesOf, List.filter_eq_nil_iff.mpr fun f hf => by simp [h f hf], List.map_nil]

variable [Scalar α] [Numeral α] (t : Trace α) (o : Options α)

theorem filesOf_addition :
    filesOf .pchAddition (pchFindings t o) =
      (Pch.additions t t.graph o.currentPch o.pchCount o.pchRatio).map Pch.Candidate.header := by
  rw [pchFindings, filesOf_append, filesOf_of_kind_eq, filesOf_of_kind_ne, List.append_nil,
    List.map_map]
  · rfl
  · intro f hf
    obtain ⟨header, -, rfl⟩ := List.mem_map.mp hf
    exact nofun
  · intro f hf
    obtain ⟨c, -, rfl⟩ := List.mem_map.mp hf
    rfl

theorem filesOf_removal :
    filesOf .pchRemoval (pchFindings t o) = Pch.rarelyUsed t t.graph o.currentPch := by
  rw [pchFindings, filesOf_append, filesOf_of_kind_ne, filesOf_of_kind_eq, List.nil_append,
    List.map_map]
  · exact List.map_id _
  · intro f hf
    obtain ⟨header, -, rfl⟩ := List.mem_map.mp hf
    rfl
  · intro f hf
    obtain ⟨c, -, rfl⟩ := List.mem_map.mp hf
    exact nofun

theorem filesOf_addition_nodup : (filesOf .pchAddition (pchFindings t o)).Nodup := by
  rw [filesOf_addition, Pch.additions_headers]
  exact (Pch.candidates_headers_nodup t t.graph o.pchRatio o.pchCount).filter _

theorem not_mem_current_of_addition {h : String}
    (hm : h ∈ filesOf .pchAddition (pchFindings t o)) : h ∉ o.currentPch := by
  rw [filesOf_addition, Pch.additions_headers, List.mem_filter] at hm
  simpa using hm.2

theorem mem_current_of_removal {h : String} (hm : h ∈ filesOf .pchRemoval (pchFindings t o)) :
    h ∈ o.currentPch := by
  rw [filesOf_removal, Pch.rarelyUsed] at hm
  split_ifs at hm
  · cases hm
  · exact List.mem_of_mem_filter hm

end Files

/-! ## Templates -/

section Templates

theorem one_le_cast_max (count : Nat) : (1 : Rat) ≤ ((max count 1 : Nat) : Rat) := by
  exact_mod_cast Nat.le_max_right count 1

variable [Numeral Rat] {h : Template.Hotspot Rat}

theorem instantiationFinding_savings (h : Template.Hotspot Rat) :
    (instantiationFinding h).savings =
      h.time * (((max h.count 1 : Nat) : Rat) - 1) / ((max h.count 1 : Nat) : Rat) := by
  rw [← Rational.one_literal]
  rfl

theorem instantiationFinding_savings_nonneg (htime : 0 ≤ h.time) :
    0 ≤ (instantiationFinding h).savings := by
  have hone := one_le_cast_max h.count
  rw [instantiationFinding_savings]
  exact div_nonneg (mul_nonneg htime (sub_nonneg.mpr hone)) (zero_le_one.trans hone)

/-- One instantiation stays. -/
theorem instantiationFinding_savings_lt (htime : 0 < h.time) :
    (instantiationFinding h).savings < h.time := by
  have hone := one_le_cast_max h.count
  rw [instantiationFinding_savings, div_lt_iff₀ (zero_lt_one.trans_le hone)]
  exact mul_lt_mul_of_pos_left (sub_one_lt _) htime

theorem instantiationFinding_wellFormed (htime : 0 ≤ h.time) :
    (instantiationFinding h).WellFormed where
  confidence_bounds := Rational.clampUnit_bounds _
  savings_nonneg := instantiationFinding_savings_nonneg htime
  priority_eq := rfl
  affectedFiles_nodup := List.nodup_nil

variable {t : Trace Rat} {o : Options Rat}

theorem wellFormed_of_mem_explicitInstantiations
    (htimes : ∀ u ∈ t.units, ∀ i ∈ u.instantiations, 0 ≤ i.time) {d : Draft Rat}
    (hd : d ∈ findingsOf t o explicitInstantiations) : d.finding.WellFormed := by
  obtain ⟨h, hm, rfl⟩ := List.mem_map.mp hd
  apply instantiationFinding_wellFormed
  rw [Template.time_of_mem_frequent hm]
  exact Template.totalTime_nonneg htimes h.name

end Templates

/-! ## Runs -/

section Runs

variable {κ : Type} [Scalar κ] [Exponential κ] [Numeral Rat] {σ : Type}

/-- Where no instantiation takes less than no time and the parameters of splits pass their check,
each source succeeds and its findings are well formed.  A header is added once, unless it is
listed already, and so is not removed as well; an explicit instantiation saves less than the
template takes in all, if it takes any time. -/
theorem builtIn_wellFormed (sample : Random.Sampler σ) (inspector : Symbols.Inspector)
    (config : Split.Config Rat) (draws : String → σ) (hconfig : config.fault? = none)
    (t : Trace Rat) (htimes : ∀ u ∈ t.units, ∀ i ∈ u.instantiations, 0 ≤ i.time)
    (o : Options Rat) :
    (∀ source ∈ builtInWith (Split.splitterOver κ sample inspector config draws),
      ∃ drafts, source.produce t o = .ok drafts ∧ ∀ d ∈ drafts, d.finding.WellFormed) ∧
    (∃ findings : List (Finding Rat),
      pchChanges.produce t o = .ok (findings.map Draft.unnamed) ∧
      (filesOf .pchAddition findings).Nodup ∧
      (∀ h ∈ filesOf .pchAddition findings, h ∉ o.currentPch) ∧
      (filesOf .pchAddition findings).Disjoint (filesOf .pchRemoval findings)) ∧
    ∃ findings : List (Finding Rat),
      explicitInstantiations.produce t o = .ok (findings.map Draft.unnamed) ∧
      ∀ f ∈ findings, ∃ name, f.title = "Explicitly instantiate " ++ name ∧
        (0 < Template.totalTime t name → f.savings < Template.totalTime t name) := by
  refine ⟨?_, ⟨pchFindings t o, rfl, filesOf_addition_nodup t o, ?_, ?_⟩, ?_⟩
  · intro source hs
    simp only [builtInWith, List.mem_cons, List.not_mem_nil, or_false] at hs
    rcases hs with rfl | rfl | rfl
    · refine ⟨_, rfl, fun d hd => ?_⟩
      exact wellFormed_of_mem_splitSource hconfig (show d ∈ findingsOf t o _ from hd)
    · refine ⟨_, rfl, fun d hd => ?_⟩
      obtain ⟨f, hf, rfl⟩ := List.mem_map.mp hd
      exact wellFormed_of_mem_pchFindings hf
    · refine ⟨_, rfl, fun d hd => ?_⟩
      exact wellFormed_of_mem_explicitInstantiations htimes
        (show d ∈ findingsOf t o _ from hd)
  · exact fun h hm => not_mem_current_of_addition t o hm
  · exact fun h hm hr => not_mem_current_of_addition t o hm (mem_current_of_removal t o hr)
  · refine ⟨(Template.frequent t o.templateMinCount).map instantiationFinding, ?_, ?_⟩
    · rw [List.map_map]
      rfl
    · intro f hf
      obtain ⟨h, hm, rfl⟩ := List.mem_map.mp hf
      refine ⟨h.name, rfl, fun hpos => ?_⟩
      rw [← Template.time_of_mem_frequent hm] at hpos ⊢
      exact instantiationFinding_savings_lt hpos

end Runs

section Example

open scoped Rational

def vectorUnit (path name : String) (time : Rat) : CompilationUnit Rat :=
  { (CompilationUnit.empty : CompilationUnit Rat) with
    path, instantiations := [⟨name, time, []⟩] }

/-- Two files that instantiate one template with different arguments. -/
def vectorTrace : Trace Rat :=
  { mathTrace with
    units := [vectorUnit "physics.cpp" "Vec<int>" 30, vectorUnit "render.cpp" "Vec<float>" 50] }

def vectorOptions : Options Rat :=
  { mathOptions with templateMinCount := 2 }

theorem vector_frequent :
    (Template.frequent vectorTrace 2).map Template.Hotspot.name = ["Vec<T>"] := by
  rw [Template.frequent, List.mergeSort_of_pairwise]
  · decide +kernel
  · decide +kernel

theorem vector_wellFormed :
    Split.mathConfig.fault? = none ∧
      (∀ u ∈ vectorTrace.units, ∀ i ∈ u.instantiations, 0 ≤ i.time) ∧
      ∃ f : Finding Rat,
        explicitInstantiations.produce vectorTrace vectorOptions = .ok [Draft.unnamed f] ∧
          f.title = "Explicitly instantiate Vec<T>" ∧ f.WellFormed ∧ f.savings < 80 := by
  have hconfig : Split.mathConfig.fault? = none := by decide +kernel
  have htimes : ∀ u ∈ vectorTrace.units, ∀ i ∈ u.instantiations, 0 ≤ i.time := by decide +kernel
  obtain ⟨hwell, -, findings, hfindings, hsavings⟩ :=
    builtIn_wellFormed (κ := Rat) Random.Generator.sample Split.mathTable.inspector
      Split.mathConfig (fun _ => Random.Generator.ofList []) hconfig vectorTrace htimes
      vectorOptions
  obtain ⟨h, hlist, hname⟩ := List.map_eq_singleton_iff.mp vector_frequent
  have hproduce : explicitInstantiations.produce vectorTrace vectorOptions =
      .ok [Draft.unnamed (instantiationFinding h)] := by
    change Except.ok ((Template.frequent vectorTrace 2).map _) = _
    rw [hlist]
    rfl
  have htitle : (instantiationFinding h).title = "Explicitly instantiate Vec<T>" := by
    change "Explicitly instantiate " ++ h.name = _
    rw [hname]
    rfl
  refine ⟨hconfig, htimes, instantiationFinding h, hproduce, htitle, ?_, ?_⟩
  · obtain ⟨drafts, hdrafts, hall⟩ := hwell explicitInstantiations (by simp [builtInWith])
    obtain rfl := Except.ok.inj (hproduce.symm.trans hdrafts)
    exact hall _ (List.mem_singleton.mpr rfl)
  · obtain ⟨f, rfl, hf⟩ := List.map_eq_singleton_iff.mp
      (Except.ok.inj (hfindings.symm.trans hproduce))
    obtain rfl : f = instantiationFinding h := congrArg Draft.finding hf
    obtain ⟨name, hnamed, hlt⟩ := hsavings _ (List.mem_singleton.mpr rfl)
    have htotal : Template.totalTime vectorTrace "Vec<T>" = 80 := by decide +kernel
    obtain rfl : "Vec<T>" = name :=
      (String.append_right_inj "Explicitly instantiate ").mp (htitle.symm.trans hnamed)
    rw [htotal] at hlt
    exact hlt (by norm_num)

end Example

end Advisor

end BuildAdvisor
