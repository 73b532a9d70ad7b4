import BuildAdvisor.Scalar

/-!
What an advisor looks for and what it reports.

* `Options` — which sources run, what they need, and which suggestions remain;
* `Options.default`, `Options.strict`, `Options.permissive` — the presets;
* `Options.fault?` — the first thing that is wrong with the options.
-/

set_option autoImplicit false

namespace BuildAdvisor.Advisor

structure Options (α : Type) where
  forwardDeclarations : Bool
  headerSplits : Bool
  pch : Bool
  pimpl : Bool
  templateInstantiations : Bool
  minConfidence : α
  minSavings : α
  maxSuggestions : Nat
  /-- A header with as many edges into it may be split. -/
  splitFanout : Nat
  splitMinSymbols : Nat
  pchCount : Nat
  /-- The share of units that have to include a header worth precompiling. -/
  pchRatio : α
  currentPch : List String
  templateMinCount : Nat

namespace Options

variable {α : Type} [Scalar α]

def default : Options α where
  forwardDeclarations := true
  headerSplits := true
  pch := true
  pimpl := true
  templateInstantiations := false
  minConfidence := 0.5
  minSavings := 10.0
  maxSuggestions := 50
  splitFanout := 5
  splitMinSymbols := 3
  pchCount := 10
  pchRatio := 0.3
  currentPch := []
  templateMinCount := 3

/-- Only what is likely and worth much. -/
def strict : Options α :=
  { (default : Options α) with
    minConfidence := 0.75
    minSavings := 100.0
    maxSuggestions := 20
    pchRatio := 0.5 }

/-- Whatever might help. -/
def permissive : Options α :=
  { (default : Options α) with
    templateInstantiations := true
    minConfidence := 0.1
    minSavings := 0.0
    maxSuggestions := 500
    splitFanout := 2
    pchRatio := 0.1
    templateMinCount := 2 }

inductive Fault (α : Type) where
  | confidenceOutside (x : α)
  | negativeSavings (x : α)
  | ratioOutside (x : α)
  | noSymbols

def Fault.message [Numeral α] : Fault α → String
  | confidenceOutside x => "min_confidence must be in [0, 1], got " ++ Numeral.plain x
  | negativeSavings x => "min_time_savings_ms must be non-negative, got " ++ Numeral.plain x
  | ratioOutside x => "pch_min_inclusion_ratio must be in [0, 1], got " ++ Numeral.plain x
  | noSymbols => "header_split_min_symbols must be >= 1"

def inUnit (x : α) : Bool :=
  decide ((0.0 : α) ≤ x) && decide (x ≤ (1.0 : α))

def fault? (o : Options α) : Option (Fault α) :=
  if !inUnit o.minConfidence then some (.confidenceOutside o.minConfidence)
  else if o.minSavings < 0.0 then some (.negativeSavings o.minSavings)
  else if !inUnit o.pchRatio then some (.ratioOutside o.pchRatio)
  else if o.splitMinSymbols = 0 then some .noSymbols
  else none

end Options

end BuildAdvisor.Advisor
