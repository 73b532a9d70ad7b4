import BuildAdvisor.Proofs.Checked.Clustering
import BuildAdvisor.Proofs.Checked.CoUsage
import BuildAdvisor.Proofs.Checked.HeaderPath

/-!
The analysis of one header, with the faults of its operations.

* `targetClusters` — a quotient brought between two bounds, for any least size;
* `averageReduction` — shares of groups, and their mean over the dependents;
* `numbered`, `judge` — the parts and what becomes of them;
* `proposeOver` — the whole analysis.

There are at least two groups where their number divides, and no more groups than symbols.
-/

set_option autoImplicit false

namespace BuildAdvisor.Checked

open BuildAdvisor.Split (Clustering Config Part Proposal Refusal UsageCache)

def targetClusters (maxClusters symbols minimum : Nat) : Except Fault Nat := do
  let ideal ← quotient symbols (max minimum 1)
  let bounded ← clampCount 2 (max maxClusters 2) ideal
  pure (min symbols bounded)

theorem targetClusters_eq (maxClusters symbols minimum : Nat) :
    targetClusters maxClusters symbols minimum =
      pure (Split.targetClusters maxClusters symbols minimum) := by
  have hpos : 0 < max minimum 1 := Nat.lt_of_lt_of_le Nat.one_pos (Nat.le_max_right _ _)
  rw [targetClusters, quotient_eq symbols hpos, pure_bind,
    clampCount_eq (Nat.le_max_right maxClusters 2), pure_bind]
  rfl

/-! ## Groups -/

def neededGroups (groups : List (List String)) (cache : UsageCache) (dependent : String) :
    Except Fault Nat :=
  match cache.usedBy? dependent with
  | none => pure 0
  | some used => countIf (fun g => g.any used.contains) groups

theorem neededGroups_eq {groups : List (List String)} (hlen : groups.length < UInt64.size)
    (cache : UsageCache) (dependent : String) :
    neededGroups groups cache dependent = pure (Split.neededGroups groups cache dependent) := by
  rw [neededGroups, Split.neededGroups]
  cases cache.usedBy? dependent with
  | none => rfl
  | some used => exact countIf_eq hlen

def numbered (header : String) (groups : List (List String)) : Except Fault (List Part) :=
  groups.zipIdx.mapM fun (symbols, i) => do
    let n ← increment UInt64.size i
    let name ← partName header n
    pure ⟨name, symbols⟩

theorem numbered_eq {header : String} (hheader : header.utf8ByteSize < UInt64.size)
    {groups : List (List String)} (hlen : groups.length < UInt64.size) :
    numbered header groups = pure (Split.numbered header groups) := by
  rw [numbered, Split.numbered, List.mapIdx_eq_zipIdx_map]
  refine mapM_eq_pure ?_
  rintro ⟨symbols, i⟩ hp
  have hi : i < groups.length := List.snd_lt_of_mem_zipIdx hp
  simp only [increment_eq (Nat.lt_of_le_of_lt hi hlen), partName_eq hheader, pure_bind]

section Judgement

variable {α : Type} [Scalar α]

def averageReduction (groups : List (List String)) (cache : UsageCache)
    (dependents : List String) : Except Fault α :=
  if dependents.isEmpty || groups.isEmpty then pure 0.0
  else do
    let total : α := (groups.length : α)
    let reductions ← dependents.mapM fun d => do
      let needed ← neededGroups groups cache d
      divide (total - (needed : α)) total
    divide (Scalar.sum reductions) (dependents.length : α)

def judge [Numeral α] (config : Config α) (cache : UsageCache) (symbols : List String)
    (clustering : Clustering α) (dependents : List String) :
    Except Fault (Except (Refusal α) (Proposal α)) :=
  let header := cache.header
  let groups := Split.groups symbols clustering.labels
  if groups.length < 2 then pure (.error (.oneGroup header))
  else do
    let reduction ← averageReduction groups cache dependents
    let benefit := reduction * config.benefitScale
    if benefit < config.minBenefit then
      pure (.error (.smallBenefit header benefit config.minBenefit))
    else
      match groups.find? fun g => g.length < 2 with
      | some g => pure (.error (.smallGroup header (g.headD "")))
      | none => do
        let parts ← numbered header groups
        pure (.ok
          { header
            parts
            benefit
            confidence := clustering.quality
            rationale := Split.rationale header symbols.length groups.length reduction })

variable [Scalar.Counting α]

theorem averageReduction_eq {groups : List (List String)} (hlen : groups.length < UInt64.size)
    (cache : UsageCache) (dependents : List String) :
    averageReduction groups cache dependents =
      pure (Split.averageReduction groups cache dependents : α) := by
  rw [averageReduction, Split.averageReduction]
  split
  next => rfl
  next h =>
    simp only [Bool.or_eq_true, List.isEmpty_iff, not_or] at h
    have hdependents : 0 < dependents.length := List.length_pos_of_ne_nil h.1
    have hgroups : 0 < groups.length := List.length_pos_of_ne_nil h.2
    simp only [neededGroups_eq hlen, pure_bind, divide_count _ hgroups]
    rw [mapM_eq_pure fun _ _ => rfl, pure_bind, divide_count _ hdependents]

theorem judge_eq [Numeral α] (config : Config α) {cache : UsageCache}
    (hheader : cache.header.utf8ByteSize < UInt64.size) {symbols : List String}
    {clustering : Clustering α}
    (hlen : (Split.groups symbols clustering.labels).length < UInt64.size)
    (dependents : List String) :
    judge config cache symbols clustering dependents =
      pure (Split.judge config cache symbols clustering dependents) := by
  simp only [judge, Split.judge, averageReduction_eq hlen, numbered_eq hheader hlen, pure_bind]
  split_ifs
  · rfl
  · rfl
  · cases (Split.groups symbols clustering.labels).find? fun g => g.length < 2 with
    | some g => rfl
    | none => rfl

end Judgement

/-! ## Analysis -/

section Analysis

variable {α : Type} [Scalar α] (κ : Type) [Scalar κ] [Exponential κ] [Numeral α] {σ : Type}

/-- What follows once the usage is collected. -/
def analyze (sample : Random.Sampler σ) (config : Config α) (cache : UsageCache)
    (dependents : List String) (minimum : Nat) (s : σ) :
    Except Fault (Except AnalysisError (Proposal α) × σ) := do
  let coUsage ← coUsage cache
  let k ← targetClusters config.maxClusters cache.symbols.size minimum
  let (clustering, s) ← clusterOver (α := α) κ sample coUsage.matrix k s
  let outcome ← judge config cache coUsage.symbols clustering dependents
  pure (outcome.mapError Refusal.error, s)

def proposeOver (sample : Random.Sampler σ) (inspector : Symbols.Inspector) (config : Config α)
    (header : String) (dependents : List String) (minimum : Nat) (s : σ) :
    Except Fault (Except AnalysisError (Proposal α) × σ) :=
  let dependents := distinct dependents
  match inspector.declared header with
  | .error e => pure (.error e, s)
  | .ok symbols =>
    if symbols.size < Split.requiredSymbols minimum then
      pure (.error (Refusal.tooFewSymbols header symbols.size (Split.requiredSymbols minimum) :
        Refusal α).error, s)
    else
      match Split.collectUsage inspector header symbols dependents with
      | .error e => pure (.error e, s)
      | .ok cache => analyze κ sample config cache dependents minimum s

variable {sample : Random.Sampler σ} (hs : sample.Distinct)

include hs

omit [Numeral α] in
theorem length_groups_le (cache : UsageCache) (k : Nat) (s : σ) :
    (Split.groups cache.coUsage.symbols
      (Split.clusterOver (α := α) κ sample cache.coUsage.matrix k s).1.labels).length ≤
        cache.symbols.size := by
  have hrows : (Split.affinity (α := κ) cache.coUsage.matrix).length = cache.symbols.size := by
    rw [Split.length_affinity, cache.coUsage_matrix, List.length_map,
      Std.ExtTreeSet.length_toList]
  have hlt : ∀ l ∈ (Split.kmeans sample (Split.affinity (α := κ) cache.coUsage.matrix) k
      Split.maxRounds s).1.labels, l < cache.symbols.size := by
    intro l hl
    have hlabel := Split.lt_of_mem_kmeans_labels hs _ k Split.maxRounds s hl
    have hpos := List.length_pos_of_mem hl
    rw [Split.length_kmeans_labels] at hpos
    exact hrows ▸ hlabel.trans_le (Split.clampClusters_le k hpos)
  refine Nat.le_trans ?_ (Split.clusterCount_le hlt)
  exact (List.length_filter_le _ _).trans (by simp [Split.clusterOver, Split.Clustering.ofLabels])

variable [Scalar.Counting α] [Scalar.Counting κ]

theorem analyze_eq (config : Config α) {cache : UsageCache}
    (hheader : cache.header.utf8ByteSize < UInt64.size)
    (hsymbols : cache.symbols.size < UInt64.size)
    (husage : cache.usage.values.length < UInt32.size) (dependents : List String) (minimum : Nat)
    (s : σ) :
    analyze κ sample config cache dependents minimum s =
      let k := Split.targetClusters config.maxClusters cache.symbols.size minimum
      let (clustering, s) := Split.clusterOver (α := α) κ sample cache.coUsage.matrix k s
      let outcome := Split.judge config cache cache.coUsage.symbols clustering dependents
      pure (outcome.mapError Refusal.error, s) := by
  have hmatrix : cache.coUsage.matrix.length < UInt64.size := by
    rw [cache.coUsage_matrix, List.length_map, Std.ExtTreeSet.length_toList]
    exact hsymbols
  have hgroups := fun k => (length_groups_le (α := α) κ hs cache k s).trans_lt hsymbols
  rw [analyze, coUsage_eq husage, pure_bind, targetClusters_eq, pure_bind,
    clusterOver_eq κ hs hmatrix, pure_bind]
  simp only [judge_eq config hheader (hgroups _), pure_bind]

theorem proposeOver_eq (inspector : Symbols.Inspector) (config : Config α) {header : String}
    (hheader : header.utf8ByteSize < UInt64.size)
    (hsymbols : ∀ symbols, inspector.declared header = .ok symbols → symbols.size < UInt64.size)
    {dependents : List String} (hdependents : dependents.length < UInt32.size) (minimum : Nat)
    (s : σ) :
    proposeOver κ sample inspector config header dependents minimum s =
      pure (Split.proposeOver κ sample inspector config header dependents minimum s) := by
  simp only [proposeOver, Split.proposeOver]
  cases hdeclared : inspector.declared header with
  | error e => rfl
  | ok symbols =>
    dsimp only
    split
    next => rfl
    next =>
      cases hcache : Split.collectUsage inspector header symbols (distinct dependents) with
      | error e => rfl
      | ok cache =>
        have hcollected := Split.collectUsage_eq_ok hcache
        have hown : cache.symbols = symbols := hcollected.symbols_eq
        have hhead : cache.header = header := hcollected.header_eq
        have husage : cache.usage.values.length < UInt32.size :=
          (length_usage_le hcollected).trans_lt hdependents
        dsimp only
        rw [analyze_eq κ hs config (hhead ▸ hheader) (hown ▸ hsymbols symbols hdeclared) husage]
        simp only [hown]

end Analysis

end BuildAdvisor.Checked
