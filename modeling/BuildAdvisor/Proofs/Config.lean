import BuildAdvisor.Config
import BuildAdvisor.Proofs.Scalar.Arithmetic

/-!
What the checks of a configuration let through.

* `Options.fault?_eq_none_iff`, `Split.Config.fault?_eq_none_iff` — the checks of each table, over
  any numbers;
* `Config.Meets` — what the messages of the checks ask for;
* `Config.fault?_eq_none_iff` — bounds that are tested from inside hold in what passes; those that
  are tested from outside hold or the number is undefined;
* `Config.parse_eq_error` — a message names a number that does break its bound;
* `Config.parse_eq_ok_iff` — which texts are accepted, and which of them meet the bounds.
-/

set_option autoImplicit false

namespace BuildAdvisor

/-! ## Tables -/

section Tables

variable {α : Type} [Scalar α]

theorem Advisor.Options.inUnit_iff (x : α) :
    Advisor.Options.inUnit x = true ↔ (0.0 : α) ≤ x ∧ x ≤ (1.0 : α) := by
  rw [Advisor.Options.inUnit, Bool.and_eq_true, decide_eq_true_iff, decide_eq_true_iff]

theorem Advisor.Options.fault?_eq_none_iff (o : Advisor.Options α) :
    o.fault? = none ↔
      ((0.0 : α) ≤ o.minConfidence ∧ o.minConfidence ≤ (1.0 : α)) ∧ ¬ o.minSavings < 0.0 ∧
      ((0.0 : α) ≤ o.pchRatio ∧ o.pchRatio ≤ (1.0 : α)) ∧ 1 ≤ o.splitMinSymbols := by
  rw [← inUnit_iff, ← inUnit_iff, Nat.one_le_iff_ne_zero, fault?]
  split_ifs with h1 h2 h3 h4
  all_goals simp_all

theorem Split.Config.fault?_eq_none_iff (c : Split.Config α) :
    c.fault? = none ↔ ¬ c.minBenefit < 0.0 ∧ ¬ c.benefitScale ≤ 0.0 ∧ 2 ≤ c.maxClusters := by
  rw [← Nat.not_lt, fault?]
  split_ifs with h1 h2 h3
  all_goals simp_all

/-- The number is that of the field, and it is out of bounds. -/
def Advisor.Options.Fault.Holds (o : Advisor.Options α) : Advisor.Options.Fault α → Prop
  | confidenceOutside x => x = o.minConfidence ∧ ¬ ((0.0 : α) ≤ x ∧ x ≤ (1.0 : α))
  | negativeSavings x => x = o.minSavings ∧ x < 0.0
  | ratioOutside x => x = o.pchRatio ∧ ¬ ((0.0 : α) ≤ x ∧ x ≤ (1.0 : α))
  | noSymbols => o.splitMinSymbols = 0

def Split.Config.Fault.Holds (c : Split.Config α) : Split.Config.Fault α → Prop
  | negativeMinimum x => x = c.minBenefit ∧ x < 0.0
  | scaleNotPositive x => x = c.benefitScale ∧ x ≤ 0.0
  | tooFewClusters n => n = c.maxClusters ∧ n < 2

theorem Advisor.Options.holds_of_fault? {o : Advisor.Options α} {f : Advisor.Options.Fault α}
    (h : o.fault? = some f) : f.Holds o := by
  rw [fault?] at h
  split_ifs at h with h1 h2 h3 h4
  · cases h
    exact ⟨rfl, by rw [← inUnit_iff]; simpa using h1⟩
  · cases h
    exact ⟨rfl, h2⟩
  · cases h
    exact ⟨rfl, by rw [← inUnit_iff]; simpa using h3⟩
  · cases h
    exact h4

theorem Split.Config.holds_of_fault? {c : Split.Config α} {f : Split.Config.Fault α}
    (h : c.fault? = some f) : f.Holds c := by
  rw [fault?] at h
  split_ifs at h with h1 h2 h3
  · cases h
    exact ⟨rfl, h1⟩
  · cases h
    exact ⟨rfl, h2⟩
  · cases h
    exact ⟨rfl, h3⟩

end Tables

namespace Config

/-! ## Configurations -/

def Fault.Holds (c : Config Float) : Fault Float → Prop
  | syntaxOrType => False
  | suggestions f => f.Holds c.suggestions
  | headerSplit f => f.Holds c.headerSplit

/-- The bounds that the messages of the checks state. -/
structure Meets (c : Config Float) : Prop where
  confidence : 0.0 ≤ c.suggestions.minConfidence ∧ c.suggestions.minConfidence ≤ 1.0
  savings : 0.0 ≤ c.suggestions.minSavings
  ratio : 0.0 ≤ c.suggestions.pchRatio ∧ c.suggestions.pchRatio ≤ 1.0
  symbols : 1 ≤ c.suggestions.splitMinSymbols
  benefit : 0.0 ≤ c.headerSplit.minBenefit
  scale : 0.0 < c.headerSplit.benefitScale
  clusters : 2 ≤ c.headerSplit.maxClusters

theorem fault?_none_iff_tables (c : Config Float) :
    c.fault? = none ↔ c.suggestions.fault? = none ∧ c.headerSplit.fault? = none := by
  rw [fault?]
  cases c.suggestions.fault? with
  | some f => simp
  | none => cases c.headerSplit.fault? <;> simp

/-- A bound tested from outside lets the undefined value pass. -/
theorem fault?_eq_none_iff (c : Config Float) :
    c.fault? = none ↔
      (0.0 ≤ c.suggestions.minConfidence ∧ c.suggestions.minConfidence ≤ 1.0) ∧
      (0.0 ≤ c.suggestions.minSavings ∨ c.suggestions.minSavings.isNaN = true) ∧
      (0.0 ≤ c.suggestions.pchRatio ∧ c.suggestions.pchRatio ≤ 1.0) ∧
      1 ≤ c.suggestions.splitMinSymbols ∧
      (0.0 ≤ c.headerSplit.minBenefit ∨ c.headerSplit.minBenefit.isNaN = true) ∧
      (0.0 < c.headerSplit.benefitScale ∨ c.headerSplit.benefitScale.isNaN = true) ∧
      2 ≤ c.headerSplit.maxClusters := by
  rw [fault?_none_iff_tables, Advisor.Options.fault?_eq_none_iff,
    Split.Config.fault?_eq_none_iff, Double.not_lt_zero_iff, Double.not_lt_zero_iff,
    Double.not_le_zero_iff]
  simp only [and_assoc]

theorem Meets.fault?_eq_none {c : Config Float} (h : c.Meets) : c.fault? = none :=
  (fault?_eq_none_iff c).mpr ⟨h.confidence, .inl h.savings, h.ratio, h.symbols, .inl h.benefit,
    .inl h.scale, h.clusters⟩

/-- What passes meets the bounds as soon as the numbers tested from outside are defined. -/
theorem meets_iff_of_fault?_eq_none {c : Config Float} (h : c.fault? = none) :
    c.Meets ↔ c.suggestions.minSavings.isNaN = false ∧
      c.headerSplit.minBenefit.isNaN = false ∧ c.headerSplit.benefitScale.isNaN = false := by
  obtain ⟨hconfidence, hsavings, hratio, hsymbols, hbenefit, hscale, hclusters⟩ :=
    (fault?_eq_none_iff c).mp h
  constructor
  · intro hm
    exact ⟨(Double.isNaN_eq_false_of_le hm.savings).2, (Double.isNaN_eq_false_of_le hm.benefit).2,
      (Double.isNaN_eq_false_of_lt hm.scale).2⟩
  · rintro ⟨h1, h2, h3⟩
    simp only [h1, h2, h3, Bool.false_eq_true, or_false] at hsavings hbenefit hscale
    exact ⟨hconfidence, hsavings, hratio, hsymbols, hbenefit, hscale, hclusters⟩

theorem holds_of_fault? {c : Config Float} {f : Fault Float} (h : c.fault? = some f) :
    f.Holds c := by
  rw [fault?] at h
  split at h
  · next g hg =>
    cases h
    exact Advisor.Options.holds_of_fault? hg
  · next g hnone hg =>
    cases h
    exact Split.Config.holds_of_fault? hg
  · cases h

/-! ## Texts -/

theorem parse_eq_ok_iff_fault? (text : String) (c : Config Float) :
    parse text = .ok c ↔ (Toml.parse? text >>= ofData?) = some c ∧ c.fault? = none := by
  rw [parse]
  cases Toml.parse? text >>= ofData? with
  | none => simp
  | some d =>
    cases hf : d.fault? with
    | some f =>
      simp only [hf]
      constructor
      · intro h
        cases h
      · rintro ⟨h, hnone⟩
        cases h
        rw [hf] at hnone
        cases hnone
    | none =>
      simp only [hf]
      constructor
      · intro h
        cases h
        exact ⟨rfl, hf⟩
      · rintro ⟨h, -⟩
        cases h
        rfl

/-- A text is rejected because it does not decode, or for a number that breaks its bound. -/
theorem parse_eq_error {text : String} {f : Fault Float} (h : parse text = .error f) :
    (Toml.parse? text >>= ofData?) = none ∨
      ∃ c, (Toml.parse? text >>= ofData?) = some c ∧ f.Holds c := by
  rw [parse] at h
  cases hd : Toml.parse? text >>= ofData? with
  | none => exact .inl rfl
  | some c =>
    rw [hd] at h
    cases hf : c.fault? with
    | some g =>
      simp only [hf] at h
      cases h
      exact .inr ⟨c, rfl, holds_of_fault? hf⟩
    | none =>
      simp only [hf] at h
      cases h

/-- A text is accepted if it decodes to a configuration that meets the bounds.  What is accepted
meets them unless one of the three numbers that are only refused below their bound is undefined;
the other bounds hold in any case. -/
theorem parse_eq_ok_iff (text : String) (c : Config Float) :
    (parse text = .ok c ↔
      (Toml.parse? text >>= ofData?) = some c ∧
      (0.0 ≤ c.suggestions.minConfidence ∧ c.suggestions.minConfidence ≤ 1.0) ∧
      (0.0 ≤ c.suggestions.minSavings ∨ c.suggestions.minSavings.isNaN = true) ∧
      (0.0 ≤ c.suggestions.pchRatio ∧ c.suggestions.pchRatio ≤ 1.0) ∧
      1 ≤ c.suggestions.splitMinSymbols ∧
      (0.0 ≤ c.headerSplit.minBenefit ∨ c.headerSplit.minBenefit.isNaN = true) ∧
      (0.0 < c.headerSplit.benefitScale ∨ c.headerSplit.benefitScale.isNaN = true) ∧
      2 ≤ c.headerSplit.maxClusters) ∧
    ((Toml.parse? text >>= ofData?) = some c → c.Meets → parse text = .ok c) ∧
    (parse text = .ok c → (c.Meets ↔ c.suggestions.minSavings.isNaN = false ∧
      c.headerSplit.minBenefit.isNaN = false ∧ c.headerSplit.benefitScale.isNaN = false)) := by
  rw [parse_eq_ok_iff_fault?, ← fault?_eq_none_iff]
  refine ⟨Iff.rfl, fun hdecoded hmeets => ⟨hdecoded, hmeets.fault?_eq_none⟩, ?_⟩
  rintro ⟨-, hnone⟩
  exact meets_iff_of_fault?_eq_none hnone

section Example

/-- Sets every number that has a bound, three of them to the bound. -/
def boundedText : String :=
  "[suggestions]\nmin_confidence = 0.25\nmin_time_savings_ms = 5\n" ++
    "pch_min_inclusion_ratio = 1.0\nheader_split_min_symbols = 4\n[header_split]\n" ++
    "min_benefit_ms = 0.0\nbenefit_scale_ms = 20.5\nmax_clusters = 2\n"

theorem parse_boundedText :
    ∃ c, parse boundedText = .ok c ∧ c.Meets ∧
      (c.suggestions.minConfidence = 0.25 ∧ c.suggestions.minSavings = 5.0 ∧
        c.suggestions.pchRatio = 1.0 ∧ c.suggestions.splitMinSymbols = 4) ∧
      c.headerSplit.minBenefit = 0.0 ∧ c.headerSplit.benefitScale = 20.5 ∧
      c.headerSplit.maxClusters = 2 := by
  have hany : (Toml.parse? boundedText >>= ofData?).any (fun c =>
      decide ((c.suggestions.minConfidence = 0.25 ∧ c.suggestions.minSavings = 5.0 ∧
        c.suggestions.pchRatio = 1.0 ∧ c.suggestions.splitMinSymbols = 4) ∧
        c.headerSplit.minBenefit = 0.0 ∧ c.headerSplit.benefitScale = 20.5 ∧
        c.headerSplit.maxClusters = 2)) = true := by
    decide +kernel
  obtain ⟨c, hdecoded, hnumbers⟩ := (Option.any_eq_true _ _).mp hany
  obtain ⟨⟨hconfidence, hsavings, hratio, hsymbols⟩, hbenefit, hscale, hclusters⟩ :=
    of_decide_eq_true hnumbers
  have hmeets : c.Meets := {
    confidence := by rw [hconfidence]; decide +kernel
    savings := by rw [hsavings]; decide +kernel
    ratio := by rw [hratio]; decide +kernel
    symbols := by rw [hsymbols]; decide
    benefit := by rw [hbenefit]; decide +kernel
    scale := by rw [hscale]; decide +kernel
    clusters := hclusters.ge }
  exact ⟨c, (parse_eq_ok_iff boundedText c).2.1 hdecoded hmeets, hmeets,
    ⟨hconfidence, hsavings, hratio, hsymbols⟩, hbenefit, hscale, hclusters⟩

/-- TOML has a literal for the undefined value. -/
def undefinedText : String :=
  "[suggestions]\nmin_time_savings_ms = nan\n[header_split]\nmin_benefit_ms = nan\n" ++
    "benefit_scale_ms = nan\n"

/-- Accepted, though no minimum is at least zero and the scale is not positive. -/
theorem parse_undefinedText :
    ∃ c, parse undefinedText = .ok c ∧ ¬ 0.0 ≤ c.suggestions.minSavings ∧
      ¬ 0.0 ≤ c.headerSplit.minBenefit ∧ ¬ 0.0 < c.headerSplit.benefitScale := by
  have hall : (parse undefinedText).toOption.any (fun c =>
      c.suggestions.minSavings.isNaN && c.headerSplit.minBenefit.isNaN &&
        c.headerSplit.benefitScale.isNaN) = true := by
    decide +kernel
  cases hparse : parse undefinedText with
  | error f =>
    rw [hparse] at hall
    cases hall
  | ok c =>
    rw [hparse] at hall
    have hundefined : (c.suggestions.minSavings.isNaN = true ∧
        c.headerSplit.minBenefit.isNaN = true) ∧ c.headerSplit.benefitScale.isNaN = true := by
      rwa [Except.toOption, Option.any_some, Bool.and_eq_true, Bool.and_eq_true] at hall
    obtain ⟨⟨hsavings, hbenefit⟩, hscale⟩ := hundefined
    refine ⟨c, rfl, ?_, ?_, ?_⟩
    · exact fun h => Bool.eq_false_iff.mp (Double.isNaN_eq_false_of_le h).2 hsavings
    · exact fun h => Bool.eq_false_iff.mp (Double.isNaN_eq_false_of_le h).2 hbenefit
    · exact fun h => Bool.eq_false_iff.mp (Double.isNaN_eq_false_of_lt h).2 hscale

end Example

end Config

end BuildAdvisor
