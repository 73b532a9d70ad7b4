import BuildAdvisor.Scalar

/-!
How header splits are proposed.

* `Config` — the parameters;
* `Config.Fault` — what can be wrong with them;
* `Config.fault?` — the first fault of a configuration.
-/

set_option autoImplicit false

namespace BuildAdvisor.Split

/-- `benefitScale` is what a dependent saves that needs no part at all.  Without a seed the
choice of centroids is free. -/
structure Config (α : Type) where
  minBenefit : α
  benefitScale : α
  maxClusters : Nat
  seed : Option UInt64

namespace Config

inductive Fault (α : Type) where
  | negativeMinimum (x : α)
  | scaleNotPositive (x : α)
  | tooFewClusters (n : Nat)

variable {α : Type} [Scalar α]

def default : Config α := ⟨10.0, 10.0, 6, none⟩

def Fault.message [Numeral α] : Fault α → String
  | negativeMinimum x => "min_benefit_ms must be non-negative, got " ++ Numeral.plain x
  | scaleNotPositive x => "benefit_scale_ms must be positive, got " ++ Numeral.plain x
  | tooFewClusters n => s!"max_clusters must be >= 2 to split anything, got {n}"

def fault? (c : Config α) : Option (Fault α) :=
  if c.minBenefit < 0.0 then some (.negativeMinimum c.minBenefit)
  else if c.benefitScale ≤ 0.0 then some (.scaleNotPositive c.benefitScale)
  else if c.maxClusters < 2 then some (.tooFewClusters c.maxClusters)
  else none

end Config

end BuildAdvisor.Split
