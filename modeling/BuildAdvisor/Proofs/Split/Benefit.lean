import BuildAdvisor.Proofs.Rational
import BuildAdvisor.Proofs.Split.Analysis

/-!
The benefit of a split stays below the scale of benefits.

* `averageReduction_lt_one` — one dependent that needs a group keeps the mean below one;
* `Analysed.exists_needed` — there is such a dependent behind every proposal: were no symbol
  used, all rows of the co-usage matrix would be equal, and one label would be all there is;
* `proposal_benefit_lt_scale` — so a configuration that asks for the whole scale, as the one by
  default does, never gets a proposal.

The mean is taken over exact rationals, the clustering over any numbers.
-/

set_option autoImplicit false

namespace BuildAdvisor.Split

theorem neededGroups_le (groups : List (List String)) (cache : UsageCache) (d : String) :
    neededGroups groups cache d ≤ groups.length := by
  rw [neededGroups]
  split
  · exact Nat.zero_le _
  · exact List.length_filter_le _ _

theorem averageReduction_lt_one {groups : List (List String)} {cache : UsageCache}
    {dependents : List String}
    (h : ∃ d ∈ dependents, 0 < neededGroups groups cache d) :
    averageReduction (α := Rat) groups cache dependents < 1 := by
  obtain ⟨d, hd, hn⟩ := h
  have hpos : 0 < groups.length := Nat.lt_of_lt_of_le hn (neededGroups_le groups cache d)
  have hq : (0 : Rat) < (groups.length : Rat) := by exact_mod_cast hpos
  have hempty : (dependents.isEmpty || groups.isEmpty) = false := by
    rw [Bool.or_eq_false_iff]
    exact ⟨List.isEmpty_eq_false_iff.mpr (List.ne_nil_of_mem hd),
      List.isEmpty_eq_false_iff.mpr (List.ne_nil_of_length_pos hpos)⟩
  rw [averageReduction, if_neg (by rw [hempty]; decide)]
  simp only [Rational.sum_eq]
  apply Rational.mean_lt_one
  · intro d' _
    rw [div_le_one hq]
    exact sub_le_self _ (Nat.cast_nonneg _)
  · refine ⟨d, hd, ?_⟩
    rw [div_lt_one hq]
    exact sub_lt_self _ (by exact_mod_cast hn)

/-- A dependent that needs no group uses none of the symbols that the groups hold. -/
theorem contains_eq_false_of_needed {groups : List (List String)} {cache : UsageCache}
    {d x : String} {used : Names} (hu : cache.usedBy? d = some used)
    (hn : neededGroups groups cache d = 0) (hx : ∃ g ∈ groups, x ∈ g) :
    used.contains x = false := by
  obtain ⟨g, hg, hxg⟩ := hx
  rw [neededGroups, hu] at hn
  have hf := List.filter_eq_nil_iff.mp (List.eq_nil_of_length_eq_zero hn) g hg
  rw [List.any_eq_true] at hf
  exact Bool.eq_false_iff.mpr fun hc => hf ⟨x, hxg, hc⟩

section Benefit

variable {κ : Type} [Scalar κ] [Exponential κ] {σ : Type} {sample : Random.Sampler σ}
  {inspector : Symbols.Inspector} {header : String} {dependents : List String} {minimum : Nat}
  {s : σ}

theorem Analysed.exists_needed {α : Type} [Scalar α] {config : Config α} {p : Proposal α}
    {symbols : Names} {cache : UsageCache} {label : String → Nat}
    (h : Analysed κ sample inspector config header dependents minimum s p symbols cache label) :
    ∃ d ∈ distinct dependents,
      0 < neededGroups (groups symbols.toList (symbols.toList.map label)) cache d := by
  by_contra hc
  have hzero : ∀ d ∈ distinct dependents,
      neededGroups (groups symbols.toList (symbols.toList.map label)) cache d = 0 := by
    intro d hd
    exact Nat.eq_zero_of_not_pos fun hp => hc ⟨d, hd, hp⟩
  have hunused : ∀ used ∈ cache.usage.values, ∀ x ∈ symbols.toList,
      used.contains x = false := by
    intro used hm x hx
    obtain ⟨d, hd, hu⟩ := (collectUsage_eq_ok h.collected).mem_values_iff.mp hm
    exact contains_eq_false_of_needed hu (hzero d hd)
      ⟨_, labelled_mem_groups hx, mem_labelled_iff.mpr ⟨hx, rfl⟩⟩
  have hlabel : ∀ x ∈ symbols.toList, ∀ y ∈ symbols.toList, label x = label y := by
    intro x hx y hy
    apply h.label_congr x y
    apply cache.row_congr
    intro used hm
    rw [hunused used hm x hx, hunused used hm y hy]
  have h1 := length_groups_le_one hlabel
  have h2 := h.two_groups
  omega

variable [Numeral Rat]

theorem proposeOver_benefit {config : Config Rat} {p : Proposal Rat}
    (hscale : 0 < config.benefitScale)
    (h : (proposeOver κ sample inspector config header dependents minimum s).1 = .ok p) :
    config.minBenefit ≤ p.benefit ∧ p.benefit < config.benefitScale := by
  obtain ⟨symbols, cache, label, a⟩ := exists_analysed κ h
  refine ⟨not_lt.mp a.worthwhile, ?_⟩
  have hlt := averageReduction_lt_one a.exists_needed
  calc
    p.benefit = averageReduction (groups symbols.toList (symbols.toList.map label)) cache
        (distinct dependents) * config.benefitScale := a.benefit_eq
    _ < 1 * config.benefitScale := mul_lt_mul_of_pos_right hlt hscale
    _ = config.benefitScale := one_mul _

theorem proposeOver_eq_error {config : Config Rat} (hscale : 0 < config.benefitScale)
    (hmin : config.benefitScale ≤ config.minBenefit) :
    ∃ e, (proposeOver κ sample inspector config header dependents minimum s).1 = .error e := by
  cases h : (proposeOver κ sample inspector config header dependents minimum s).1 with
  | error e => exact ⟨e, rfl⟩
  | ok p =>
    obtain ⟨h1, h2⟩ := proposeOver_benefit hscale h
    exact absurd (hmin.trans h1) (not_le.mpr h2)

/-- The benefit of a proposal lies between the least benefit asked for and the scale, which it
does not reach.  Asking for the scale or more, as is done by default, rules out every proposal,
whatever the header, its dependents, their use of it and the rows chosen at first. -/
theorem proposal_benefit_lt_scale (sample : Random.Sampler σ) (inspector : Symbols.Inspector)
    (config : Config Rat) (header : String) (dependents : List String) (minimum : Nat) (s : σ)
    (hscale : 0 < config.benefitScale) :
    (∀ p, (proposeOver κ sample inspector config header dependents minimum s).1 = .ok p →
      config.minBenefit ≤ p.benefit ∧ p.benefit < config.benefitScale) ∧
    (config.benefitScale ≤ config.minBenefit →
      ∃ e, (proposeOver κ sample inspector config header dependents minimum s).1 = .error e) ∧
    ∃ e, (proposeOver κ sample inspector (Config.default : Config Rat) header dependents minimum
      s).1 = .error e := by
  refine ⟨fun p h => proposeOver_benefit hscale h, fun hmin => proposeOver_eq_error hscale hmin,
    proposeOver_eq_error ?_ ?_⟩
  · norm_num [Config.default]
  · exact le_refl (10.0 : Rat)

end Benefit

section Example

open scoped Rational

theorem mathSplit_benefit :
    0 < mathConfig.benefitScale ∧ ∃ p, mathSplit = .ok p ∧ 5 ≤ p.benefit ∧ p.benefit < 10 := by
  have hscale : 0 < mathConfig.benefitScale := by decide
  obtain ⟨p, hp⟩ := mathSplit_eq_ok
  exact ⟨hscale, p, hp, (proposal_benefit_lt_scale _ _ _ _ _ _ _ hscale).1 p hp⟩

end Example

end BuildAdvisor.Split
