import BuildAdvisor.Advisor.Source
import BuildAdvisor.Pch.Candidate
import BuildAdvisor.Split.Proposal
import BuildAdvisor.Template.Hotspot

/-!
The sources that every advisor brings.

* `splitSource`, `headerSplits` — a split for each header that many files include;
* `pchChanges` — headers to add to the precompiled header, then headers to remove;
* `explicitInstantiations` — templates that many units instantiate;
* `builtInWith`, `builtIn` — the three of them.
-/

set_option autoImplicit false

namespace BuildAdvisor.Advisor

variable {α : Type} [Scalar α]

/-! ## Header splits -/

def partLine (p : Split.Part) : String :=
  "\n  " ++ p.name ++ ": " ++ ", ".intercalate p.symbols

def splitFinding (dependents : List String) (p : Split.Proposal α) : Finding α where
  kind := .headerSplit
  priority := Priority.ofSavings p.benefit
  confidence := p.confidence
  title := s!"Split {p.header} into {p.parts.length} headers"
  description := p.parts.foldl (fun text part => text ++ partLine part) p.rationale
  file := p.header
  relatedFiles := p.parts.map Split.Part.name
  affectedFiles := distinct dependents
  savings := p.benefit
  isSafe := false

/-- The finding for one header, if enough files include it and a split is proposed. -/
def splitOf? (split : Split.Splitter α) (g : Graph) (o : Options α) (header : String) :
    Option (Finding α) :=
  let dependents := g.dependents header
  if dependents.length < o.splitFanout then none
  else
    match split header dependents o.splitMinSymbols with
    | .ok p => some (splitFinding dependents p)
    | .error _ => none

def splitSource (split : Split.Splitter α) : Source α where
  kind := .headerSplit
  name := "header-split"
  produce := fun t o =>
    .ok ((t.graph.nodes.filterMap (splitOf? split t.graph o)).map Draft.unnamed)

def headerSplits [Numeral α] [Exponential α] (inspector : Symbols.Inspector)
    (config : Split.Config α) : Source α :=
  splitSource (Split.propose inspector config)

/-! ## Precompiled header -/

def additionFinding [Numeral α] (units : Nat) (g : Graph) (c : Pch.Candidate α) : Finding α where
  kind := .pchAddition
  priority := Priority.ofSavings c.savings
  confidence := Scalar.clampUnit ((c.inclusionCount : α) / (units : α))
  title := s!"Add {c.header} to the precompiled header"
  description := s!"Depended upon {c.inclusionCount} times across {units} units, costing ~" ++
    Numeral.places 1 c.cost ++ " ms of preprocessing per including file (benefit score " ++
    Numeral.places 2 c.benefit ++ ")"
  file := c.header
  relatedFiles := []
  affectedFiles := distinct (g.dependents c.header)
  savings := c.savings
  isSafe := true

/-- The part of a header's cost that each unit pays which loads it without using it. -/
def unusedCharge : α := 0.1

/-- What the units that do not depend on a header pay for it.  Repeated edges may count more
users than there are units. -/
def removalSavings (units : Nat) (costs : Table α) (g : Graph) (header : String) : α :=
  let idle := units - (g.dependents header).length
  Pch.costOf costs header * (idle : α) * unusedCharge

def removalFinding [Numeral α] (units : Nat) (costs : Table α) (g : Graph)
    (current : List String) (header : String) : Finding α :=
  let ratio : α := Pch.usageRatio g header units
  let savings := removalSavings units costs g header
  { kind := .pchRemoval
    priority := Priority.ofSavings savings
    confidence := Scalar.clampUnit ((1.0 : α) - ratio)
    title := s!"Remove {header} from the precompiled header"
    description := "Only " ++ Numeral.places 1 (ratio * (100.0 : α)) ++
      "% of units depend on it; every other unit pays to load it"
    file := header
    relatedFiles := current
    affectedFiles := []
    savings
    isSafe := true }

def pchFindings [Numeral α] (t : Trace α) (o : Options α) : List (Finding α) :=
  let g := t.graph
  let units := t.units.length
  let costs := Pch.perFileCosts t g
  (Pch.additions t g o.currentPch o.pchCount o.pchRatio).map (additionFinding units g) ++
    (Pch.rarelyUsed t g o.currentPch).map (removalFinding units costs g o.currentPch)

def pchChanges [Numeral α] : Source α where
  kind := .pch
  name := "pch"
  produce := fun t o => .ok ((pchFindings t o).map Draft.unnamed)

/-! ## Templates -/

/-- One instantiation stays; what the others take is saved. -/
def instantiationFinding [Numeral α] (h : Template.Hotspot α) : Finding α :=
  let count : α := ((max h.count 1 : Nat) : α)
  let savings := h.time * (count - (1.0 : α)) / count
  { kind := .explicitInstantiation
    priority := Priority.ofSavings savings
    confidence := Scalar.clampUnit ((1.0 : α) - (1.0 : α) / count)
    title := "Explicitly instantiate " ++ h.name
    description := s!"Instantiated {h.count} times for " ++ Numeral.places 1 h.time ++
      " ms in total; instantiate once and declare `extern template` elsewhere"
    file := h.firstUnit
    relatedFiles := h.stack
    affectedFiles := []
    savings
    isSafe := false }

def explicitInstantiations [Numeral α] : Source α where
  kind := .templateInstantiation
  name := "template-instantiation"
  produce := fun t o =>
    .ok ((Template.frequent t o.templateMinCount).map fun h =>
      Draft.unnamed (instantiationFinding h))

def builtInWith [Numeral α] (split : Split.Splitter α) : List (Source α) :=
  [splitSource split, pchChanges, explicitInstantiations]

def builtIn [Numeral α] [Exponential α] (inspector : Symbols.Inspector)
    (config : Split.Config α) : List (Source α) :=
  builtInWith (Split.propose inspector config)

end BuildAdvisor.Advisor
