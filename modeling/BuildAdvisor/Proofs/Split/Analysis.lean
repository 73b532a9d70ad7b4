import BuildAdvisor.Proofs.Rational
import BuildAdvisor.Proofs.Split.CoUsage
import BuildAdvisor.Proofs.Split.Groups
import BuildAdvisor.Symbols.StaticTable

/-!
How a proposal comes about.

* `collectUsage_eq_ok` — what the cache holds once every dependent has been inspected;
* `judge_eq_ok` — the conditions that groups meet, and the proposal they make;
* `Analysed` — everything that is known of an analysis that ended in a proposal;
* `exists_analysed` — each proposal has such an analysis, and the labels in it are a function of
  the rows of the co-usage matrix;
* `mathSplitter`, `mathSplit` — the proposal for a header of which each dependent uses one half.

The properties of proposals are read off `Analysed`; only this module opens the analysis itself.
-/

set_option autoImplicit false

namespace BuildAdvisor.Split

/-! ## Usage -/

/-- What a cache has after some dependents were added to another cache. -/
structure Collected (inspector : Symbols.Inspector) (header : String) (symbols : Names)
    (dependents : List String) (start cache : UsageCache) : Prop where
  header_eq : cache.header = start.header
  symbols_eq : cache.symbols = start.symbols
  usage : ∀ d ∈ dependents, ∃ used, inspector.usedAmong d header symbols = .ok used ∧
    cache.usage[d]? = some used
  other : ∀ d, d ∉ dependents → cache.usage[d]? = start.usage[d]?

theorem foldlM_record (inspector : Symbols.Inspector) (header : String) (symbols : Names)
    (dependents : List String) (start cache : UsageCache)
    (h : dependents.foldlM (fun cache dependent =>
      (inspector.usedAmong dependent header symbols).map fun used => cache.record dependent used)
      start = .ok cache) :
    Collected inspector header symbols dependents start cache := by
  induction dependents generalizing start with
  | nil =>
    obtain rfl : start = cache := Except.ok.inj h
    exact ⟨rfl, rfl, by simp, fun _ _ => rfl⟩
  | cons d rest ih =>
    rw [List.foldlM_cons] at h
    cases hu : inspector.usedAmong d header symbols with
    | error e =>
      rw [hu] at h
      cases h
    | ok used =>
      rw [hu] at h
      have hr := ih (start.record d used) h
      refine ⟨hr.header_eq, hr.symbols_eq, ?_, ?_⟩
      · intro d' hd'
        by_cases hm : d' ∈ rest
        · exact hr.usage d' hm
        · obtain rfl := (List.mem_cons.mp hd').resolve_right hm
          refine ⟨used, hu, ?_⟩
          rw [hr.other d' hm]
          simp [UsageCache.record]
      · intro d' hd'
        obtain ⟨hne, hm⟩ := not_or.mp (mt List.mem_cons.mpr hd')
        rw [hr.other d' hm]
        simp [UsageCache.record, Std.ExtTreeMap.getElem?_insert, Ne.symm hne]

theorem collectUsage_eq_ok {inspector : Symbols.Inspector} {header : String} {symbols : Names}
    {dependents : List String} {cache : UsageCache}
    (h : collectUsage inspector header symbols dependents = .ok cache) :
    Collected inspector header symbols dependents (UsageCache.empty header symbols) cache :=
  foldlM_record inspector header symbols dependents _ cache h

/-- The sets of a cache are what the inspector said of the dependents. -/
theorem Collected.mem_values_iff {inspector : Symbols.Inspector} {header : String}
    {symbols : Names} {dependents : List String} {cache : UsageCache}
    (h : Collected inspector header symbols dependents (UsageCache.empty header symbols) cache)
    {used : Names} :
    used ∈ cache.usage.values ↔ ∃ d ∈ dependents, cache.usedBy? d = some used := by
  rw [Table.mem_values_iff]
  constructor
  · rintro ⟨d, hd⟩
    refine ⟨d, ?_, hd⟩
    by_contra hm
    rw [h.other d hm] at hd
    simp [UsageCache.empty] at hd
  · rintro ⟨d, -, hd⟩
    exact ⟨d, hd⟩

/-! ## Judgement -/

section Judgement

variable {α : Type} [Scalar α] [Numeral α]

theorem judge_eq_ok {config : Config α} {cache : UsageCache} {symbols : List String}
    {clustering : Clustering α} {dependents : List String} {p : Proposal α}
    (h : judge config cache symbols clustering dependents = .ok p) :
    2 ≤ (groups symbols clustering.labels).length ∧
    ¬ averageReduction (groups symbols clustering.labels) cache dependents * config.benefitScale <
      config.minBenefit ∧
    (∀ g ∈ groups symbols clustering.labels, 2 ≤ g.length) ∧
    p.header = cache.header ∧
    p.parts = numbered cache.header (groups symbols clustering.labels) ∧
    p.benefit =
      averageReduction (groups symbols clustering.labels) cache dependents * config.benefitScale ∧
    p.confidence = clustering.quality := by
  simp only [judge] at h
  split at h
  · cases h
  next hg =>
    split at h
    · cases h
    next hb =>
      split at h
      · cases h
      next hs =>
        obtain rfl := Except.ok.inj h
        refine ⟨by omega, hb, ?_, rfl, rfl, rfl, rfl⟩
        intro g hm
        have hl := List.find?_eq_none.mp hs g hm
        rw [decide_eq_true_iff] at hl
        omega

end Judgement

/-! ## Analysis -/

section Analysis

variable {α : Type} [Scalar α] (κ : Type) [Scalar κ] [Exponential κ] {σ : Type}

/-- The symbols, the cache and the labels from which a proposal was made.  Labels are numbers of
centroids, or zero where the sampler chose none. -/
structure Analysed (sample : Random.Sampler σ) (inspector : Symbols.Inspector)
    (config : Config α) (header : String) (dependents : List String) (minimum : Nat) (s : σ)
    (p : Proposal α) (symbols : Names) (cache : UsageCache) (label : String → Nat) : Prop where
  declared : inspector.declared header = .ok symbols
  enough : requiredSymbols minimum ≤ symbols.size
  collected : collectUsage inspector header symbols (distinct dependents) = .ok cache
  labels : (clusterOver (α := α) κ sample cache.coUsage.matrix
    (targetClusters config.maxClusters symbols.size minimum) s).1.labels =
      symbols.toList.map label
  label_congr : ∀ x y, cache.row x = cache.row y → label x = label y
  label_lt : ∀ x, label x < max 1 (sample symbols.size
    (clampClusters (targetClusters config.maxClusters symbols.size minimum) symbols.size)
    s).1.length
  two_groups : 2 ≤ (groups symbols.toList (symbols.toList.map label)).length
  two_symbols : ∀ g ∈ groups symbols.toList (symbols.toList.map label), 2 ≤ g.length
  worthwhile : ¬ p.benefit < config.minBenefit
  header_eq : p.header = header
  parts_eq : p.parts = numbered header (groups symbols.toList (symbols.toList.map label))
  benefit_eq : p.benefit =
    averageReduction (groups symbols.toList (symbols.toList.map label)) cache
      (distinct dependents) * config.benefitScale
  confidence_eq : p.confidence =
    (Clustering.ofLabels (α := α) (symbols.toList.map label)).quality

variable {sample : Random.Sampler σ} {inspector : Symbols.Inspector} {config : Config α}
  {header : String} {dependents : List String} {minimum : Nat} {s : σ} {p : Proposal α}

theorem exists_analysed [Numeral α]
    (h : (proposeOver κ sample inspector config header dependents minimum s).1 = .ok p) :
    ∃ symbols cache label,
      Analysed κ sample inspector config header dependents minimum s p symbols cache label := by
  simp only [proposeOver] at h
  split at h
  · cases h
  next symbols hd =>
    split at h
    · cases h
    next hn =>
      split at h
      · cases h
      next cache hc =>
        have hcache := collectUsage_eq_ok hc
        have hhead : cache.header = header := hcache.header_eq
        obtain rfl : cache.symbols = symbols := hcache.symbols_eq
        cases hj : judge config cache cache.coUsage.symbols
            (clusterOver (α := α) κ sample cache.coUsage.matrix
              (targetClusters config.maxClusters cache.symbols.size minimum) s).1
            (distinct dependents) with
        | error r =>
          simp only [hj] at h
          cases h
        | ok q =>
          simp only [hj] at h
          obtain rfl : q = p := Except.ok.inj h
          obtain ⟨label, hlt, hl⟩ := clusterOver_labels (α := α) κ sample cache.coUsage.matrix
            (targetClusters config.maxClusters cache.symbols.size minimum) s
          have hrows : cache.coUsage.matrix.map label =
              cache.symbols.toList.map (label ∘ cache.row) := by
            rw [cache.coUsage_matrix, List.map_map]
          have hsize : cache.coUsage.matrix.length = cache.symbols.size := by
            rw [cache.coUsage_matrix, List.length_map, Std.ExtTreeSet.length_toList]
          rw [hrows] at hl
          rw [hsize] at hlt
          rw [cache.coUsage_symbols, clusterOver_eq_ofLabels, hl] at hj
          obtain ⟨h2, hb, hg, hh, hp, hbe, hco⟩ := judge_eq_ok hj
          exact ⟨cache.symbols, cache, label ∘ cache.row,
            { declared := hd
              enough := by omega
              collected := hc
              labels := hl
              label_congr := fun x y hxy => congrArg label hxy
              label_lt := fun x => hlt (cache.row x)
              two_groups := h2
              two_symbols := hg
              worthwhile := by rw [hbe]; exact hb
              header_eq := hh.trans hhead
              parts_eq := by rw [hp, hhead]; rfl
              benefit_eq := hbe
              confidence_eq := hco }⟩

theorem length_numbered (header : String) (groups : List (List String)) :
    (numbered header groups).length = groups.length := by
  rw [numbered, List.length_mapIdx]

variable {κ}

theorem Analysed.length_parts {symbols : Names} {cache : UsageCache} {label : String → Nat}
    (h : Analysed κ sample inspector config header dependents minimum s p symbols cache label) :
    p.parts.length = (groups symbols.toList (symbols.toList.map label)).length := by
  rw [h.parts_eq, length_numbered]

end Analysis

/-! ## A header with two halves -/

section Example

open scoped Rational

def mathTable : Symbols.StaticTable :=
  let t := Symbols.StaticTable.empty.declare "math.h" ["Vec2", "Vec3", "Mat3", "Mat4"]
  let t := t.reference "physics.cpp" "math.h" ["Vec2", "Vec3"]
  t.reference "render.cpp" "math.h" ["Mat3", "Mat4"]

def mathConfig : Config Rat := ⟨5, 10, 6, none⟩

/-- Every analysis draws nothing but zeros. -/
def mathSplitter : Splitter Rat :=
  splitterOver Rat Random.Generator.sample mathTable.inspector mathConfig
    fun _ => Random.Generator.ofList []

def mathSplit : Except AnalysisError (Proposal Rat) :=
  mathSplitter "math.h" ["physics.cpp", "render.cpp"] 2

theorem mathSplit_eq_ok : ∃ p, mathSplit = .ok p := by
  have h : mathSplit.toBool = true := by decide +kernel
  cases hp : mathSplit with
  | ok p => exact ⟨p, rfl⟩
  | error e =>
    rw [hp] at h
    cases h

end Example

end BuildAdvisor.Split
