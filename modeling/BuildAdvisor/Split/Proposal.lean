import BuildAdvisor.HeaderPath
import BuildAdvisor.Random.ChaCha
import BuildAdvisor.Random.Sample
import BuildAdvisor.Split.Clustering
import BuildAdvisor.Split.CoUsage
import BuildAdvisor.Split.Config
import BuildAdvisor.Symbols.Inspector

/-!
Proposals to split a header.

* `Proposal` — the parts of a header with the expected benefit;
* `Refusal` — why a header is not split;
* `collectUsage` — what each dependent uses of a header;
* `groups`, `averageReduction` — the parts, and the share of them that dependents do not need;
* `proposeOver`, `proposeWith` — the analysis of one header, over any way to choose centroids;
* `Splitter` — what becomes of each header; `splitterOver`, `propose` — by that analysis.
-/

set_option autoImplicit false

namespace BuildAdvisor.Split

structure Part where
  name : String
  symbols : List String

structure Proposal (α : Type) where
  header : String
  parts : List Part
  benefit : α
  confidence : α
  rationale : String

inductive Refusal (α : Type) where
  | tooFewSymbols (header : String) (count required : Nat)
  | oneGroup (header : String)
  | smallBenefit (header : String) (benefit minimum : α)
  | smallGroup (header : String) (firstSymbol : String)

variable {α : Type} [Scalar α]

def Refusal.message [Numeral α] : Refusal α → String
  | tooFewSymbols header count required =>
    s!"{header} declares {count} symbols, need at least {required} to split"
  | oneGroup header => s!"{header}: symbols did not separate into at least two groups"
  | smallBenefit header benefit minimum =>
    s!"{header}: estimated benefit " ++ Numeral.places 2 benefit ++ " ms is below " ++
      Numeral.places 2 minimum ++ " ms"
  | smallGroup header firstSymbol =>
    header ++ ": group containing '" ++ firstSymbol ++ "' has fewer than two symbols"

def Refusal.error [Numeral α] (r : Refusal α) : AnalysisError :=
  .analysis r.message

/-! ## Usage -/

/-- The first inspection that fails ends the collection. -/
def collectUsage (inspector : Symbols.Inspector) (header : String) (symbols : Names)
    (dependents : List String) : Except AnalysisError UsageCache :=
  dependents.foldlM
    (fun cache dependent =>
      (inspector.usedAmong dependent header symbols).map fun used => cache.record dependent used)
    (UsageCache.empty header symbols)

def usageCache (inspector : Symbols.Inspector) (header : String) (dependents : List String) :
    Except AnalysisError UsageCache := do
  let symbols ← inspector.declared header
  collectUsage inspector header symbols dependents

/-! ## Groups -/

/-- Counters end at this number. -/
def counterLimit : Nat := UInt64.size - 1

/-- Two clusters of the least size. -/
def requiredSymbols (minimum : Nat) : Nat :=
  min (minimum * 2) counterLimit

/-- As many clusters as there are least sizes in the symbols, at least two and not too many. -/
def targetClusters (maxClusters symbols minimum : Nat) : Nat :=
  min symbols (max 2 (min (symbols / max minimum 1) (max maxClusters 2)))

/-- The symbols of each label, labels ascending; a label without symbols has no group. -/
def groups (symbols : List String) (labels : List Nat) : List (List String) :=
  let byLabel := (List.range (clusterCount labels)).map fun label =>
    ((symbols.zip labels).filter fun (_, l) => l == label).map Prod.fst
  byLabel.filter fun g => !g.isEmpty

/-- The number of groups of which a dependent uses some symbol. -/
def neededGroups (groups : List (List String)) (cache : UsageCache) (dependent : String) : Nat :=
  match cache.usedBy? dependent with
  | none => 0
  | some used => (groups.filter fun g => g.any used.contains).length

/-- The mean over the dependents of the share of groups that one does not need. -/
def averageReduction (groups : List (List String)) (cache : UsageCache)
    (dependents : List String) : α :=
  if dependents.isEmpty || groups.isEmpty then 0.0
  else
    let total : α := (groups.length : α)
    let reductions := dependents.map fun d =>
      (total - (neededGroups groups cache d : α)) / total
    Scalar.sum reductions / (dependents.length : α)

/-! ## Proposals -/

def numbered (header : String) (groups : List (List String)) : List Part :=
  groups.mapIdx fun i symbols => ⟨HeaderPath.partName header (i + 1), symbols⟩

def rationale [Numeral α] (header : String) (symbols groups : Nat) (reduction : α) : String :=
  s!"{header} declares {symbols} symbols that cluster into {groups} groups by co-usage; " ++
    "dependents skip " ++ Numeral.places 0 (reduction * (100.0 : α)) ++
    "% of the groups on average"

/-- What follows from the clusters of a header's symbols. -/
def judge [Numeral α] (config : Config α) (cache : UsageCache) (symbols : List String)
    (clustering : Clustering α) (dependents : List String) :
    Except (Refusal α) (Proposal α) :=
  let header := cache.header
  let groups := groups symbols clustering.labels
  if groups.length < 2 then .error (.oneGroup header)
  else
    let reduction := averageReduction groups cache dependents
    let benefit := reduction * config.benefitScale
    if benefit < config.minBenefit then
      .error (.smallBenefit header benefit config.minBenefit)
    else
      match groups.find? fun g => g.length < 2 with
      | some g => .error (.smallGroup header (g.headD ""))
      | none =>
        .ok
          { header
            parts := numbered header groups
            benefit
            confidence := clustering.quality
            rationale := rationale header symbols.length groups.length reduction }

/-- `minimum` is the least number of symbols meant for a cluster.  A dependent listed twice
counts once.  Symbols are clustered with numbers of `κ`, and the benefit is one of `α`. -/
def proposeOver (κ : Type) [Scalar κ] [Exponential κ] [Numeral α] {σ : Type}
    (sample : Random.Sampler σ) (inspector : Symbols.Inspector) (config : Config α)
    (header : String) (dependents : List String) (minimum : Nat) (s : σ) :
    Except AnalysisError (Proposal α) × σ :=
  let dependents := distinct dependents
  match inspector.declared header with
  | .error e => (.error e, s)
  | .ok symbols =>
    if symbols.size < requiredSymbols minimum then
      (.error (Refusal.tooFewSymbols header symbols.size (requiredSymbols minimum) :
        Refusal α).error, s)
    else
      match collectUsage inspector header symbols dependents with
      | .error e => (.error e, s)
      | .ok cache =>
        let coUsage := cache.coUsage
        let k := targetClusters config.maxClusters symbols.size minimum
        let (clustering, s) := clusterOver (α := α) κ sample coUsage.matrix k s
        let outcome := judge config cache coUsage.symbols clustering dependents
        (outcome.mapError Refusal.error, s)

def proposeWith [Numeral α] [Exponential α] {σ : Type} (sample : Random.Sampler σ)
    (inspector : Symbols.Inspector) (config : Config α) (header : String)
    (dependents : List String) (minimum : Nat) (s : σ) :
    Except AnalysisError (Proposal α) × σ :=
  proposeOver α sample inspector config header dependents minimum s

/-! ## Splitters -/

/-- The proposal for each header, from its dependents and the least number of symbols meant for
a cluster. -/
abbrev Splitter (α : Type) :=
  (header : String) → (dependents : List String) → (minimum : Nat) →
    Except AnalysisError (Proposal α)

/-- `draws` gives the state in which the analysis of each header begins to choose. -/
def splitterOver (κ : Type) [Scalar κ] [Exponential κ] [Numeral α] {σ : Type}
    (sample : Random.Sampler σ) (inspector : Symbols.Inspector) (config : Config α)
    (draws : String → σ) : Splitter α :=
  fun header dependents minimum =>
    (proposeOver κ sample inspector config header dependents minimum (draws header)).1

/-- The generator of a configuration.  Without a seed any one would do, and the first is
taken. -/
def Config.generator (c : Config α) : Random.Generator :=
  Random.Generator.ofSeed (c.seed.getD 0)

def propose [Numeral α] [Exponential α] (inspector : Symbols.Inspector) (config : Config α) :
    Splitter α :=
  splitterOver α Random.Generator.sample inspector config fun _ => config.generator

end BuildAdvisor.Split
