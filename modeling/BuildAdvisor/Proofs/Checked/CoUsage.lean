import BuildAdvisor.Proofs.Checked.Operation
import BuildAdvisor.Proofs.Split.Analysis
import Mathlib.Data.List.ProdSigma

/-!
Counting symbols that are used together, with the faults of its operations.

* `countSet` — one dependent, whose symbols are looked up in the matrix pair by pair;
* `coUsage` — all dependents, in counters of 32 bits;
* `countTogether_eq`, `countSet_eq` — what a pair adds, and what one dependent adds;
* `coUsage_eq` — counters of fewer dependents than they have values do not overflow;
* `length_usage_le` — a cache holds no more dependents than were collected;
* `coUsage_counts` — the matrix of a cache whose counters are large enough.
-/

set_option autoImplicit false

namespace BuildAdvisor.Checked

open BuildAdvisor.Split (CoUsage UsageCache togetherIn)

def countTogether (symbols : List String) (matrix : List (List Nat)) (pair : String × String) :
    Except Fault (List (List Nat)) :=
  modify matrix (symbols.idxOf pair.1) fun row =>
    modify row (symbols.idxOf pair.2) (increment UInt32.size)

def countSet (symbols : List String) (matrix : List (List Nat)) (used : Names) :
    Except Fault (List (List Nat)) :=
  let known := used.toList.filter symbols.contains
  (known ×ˢ known).foldlM (countTogether symbols) matrix

def coUsage (c : UsageCache) : Except Fault CoUsage := do
  let symbols := c.symbols.toList
  let zeros := List.replicate symbols.length (List.replicate symbols.length 0)
  let matrix ← c.usage.values.foldlM (countSet symbols) zeros
  pure ⟨symbols, matrix⟩

/-! ## Pairs -/

/-- The matrix with a number for each two symbols. -/
def matrixOf (symbols : List String) (count : String → String → Nat) : List (List Nat) :=
  symbols.map fun x => symbols.map (count x)

section Pairs

variable {symbols : List String} (hn : symbols.Nodup)

include hn

theorem countTogether_eq {count count' : String → String → Nat} {x y : String} (hx : x ∈ symbols)
    (hy : y ∈ symbols) (hroom : count x y + 1 < UInt32.size)
    (hadd : ∀ a b, count' a b = count a b + if (a, b) = (x, y) then 1 else 0) :
    countTogether symbols (matrixOf symbols count) (x, y) = pure (matrixOf symbols count') := by
  refine modify_map hn (List.getElem?_idxOf hx) ?_ ?_
  · refine modify_map hn (List.getElem?_idxOf hy) ?_ ?_
    · rw [increment_eq hroom, hadd, if_pos rfl]
    · intro b _ hne
      rw [hadd, if_neg (by simp [hne]), Nat.add_zero]
  · intro a _ hne
    refine List.map_congr_left fun b _ => ?_
    rw [hadd, if_neg (by simp [hne]), Nat.add_zero]

theorem foldlM_countTogether {count : String → String → Nat} {pairs : List (String × String)}
    (hpairs : pairs.Nodup) (hmem : ∀ p ∈ pairs, p.1 ∈ symbols ∧ p.2 ∈ symbols)
    (hroom : ∀ x y, count x y + 1 < UInt32.size) :
    pairs.foldlM (countTogether symbols) (matrixOf symbols count) =
      pure (matrixOf symbols fun x y => count x y + pairs.count (x, y)) := by
  refine foldlM_eq_pure
    (fun done => matrixOf symbols fun x y => count x y + done.count (x, y)) pairs ?_
  intro done p todo he
  obtain ⟨hx, hy⟩ := hmem p (by rw [he]; simp)
  have hnew : p ∉ done := by
    rw [he] at hpairs
    exact fun hm => (List.nodup_append.mp hpairs).2.2 p hm p List.mem_cons_self rfl
  refine countTogether_eq hn hx hy ?_ ?_
  · change count p.1 p.2 + done.count p + 1 < UInt32.size
    rw [List.count_eq_zero_of_not_mem hnew]
    exact hroom p.1 p.2
  · intro a b
    rw [List.count_append, List.count_singleton, Nat.add_assoc]
    exact congrArg (fun n => count a b + (done.count (a, b) + n))
      (if_congr (by rw [beq_iff_eq, eq_comm]) rfl rfl)

theorem countSet_eq {count : String → String → Nat} (used : Names)
    (hroom : ∀ x y, count x y + 1 < UInt32.size) :
    countSet symbols (matrixOf symbols count) used =
      pure (matrixOf symbols fun x y =>
        count x y + if used.contains x && used.contains y then 1 else 0) := by
  have hknown : (used.toList.filter symbols.contains).Nodup := used.toList_nodup.filter _
  have hmem : ∀ p ∈ used.toList.filter symbols.contains ×ˢ used.toList.filter symbols.contains,
      p.1 ∈ symbols ∧ p.2 ∈ symbols := by
    rintro ⟨x, y⟩ hp
    obtain ⟨hx, hy⟩ := List.pair_mem_product.mp hp
    simp only [List.mem_filter, List.contains_iff_mem] at hx hy
    exact ⟨hx.2, hy.2⟩
  rw [countSet, foldlM_countTogether hn (hknown.product hknown) hmem hroom]
  refine congrArg pure (List.map_congr_left fun x hx => List.map_congr_left fun y hy => ?_)
  dsimp only
  rw [(hknown.product hknown).count]
  refine congrArg (count x y + ·) (if_congr ?_ rfl rfl)
  refine List.pair_mem_product.trans ?_
  rw [List.mem_filter, List.mem_filter]
  simp [hx, hy]

end Pairs

/-! ## Dependents -/

theorem togetherIn_append_singleton (done : List Names) (used : Names) (x y : String) :
    togetherIn (done ++ [used]) x y =
      togetherIn done x y + if used.contains x && used.contains y then 1 else 0 := by
  rw [togetherIn, List.countP_append, List.countP_singleton, togetherIn]

theorem foldlM_countSet {symbols : List String} (hn : symbols.Nodup) {usage : List Names}
    (h : usage.length < UInt32.size) :
    usage.foldlM (countSet symbols) (matrixOf symbols (togetherIn [])) =
      pure (matrixOf symbols (togetherIn usage)) := by
  refine foldlM_eq_pure (fun done => matrixOf symbols (togetherIn done)) usage ?_
  intro done used todo he
  have hroom : ∀ x y, togetherIn done x y + 1 < UInt32.size := by
    intro x y
    have hle : togetherIn done x y ≤ done.length := List.countP_le_length
    rw [he, List.length_append, List.length_cons] at h
    omega
  rw [countSet_eq hn used hroom]
  refine congrArg pure (congrArg (matrixOf symbols) (funext fun x => funext fun y => ?_))
  rw [togetherIn_append_singleton]

theorem coUsage_eq {c : UsageCache} (hc : c.usage.values.length < UInt32.size) :
    coUsage c = pure c.coUsage := by
  have hzeros : List.replicate c.symbols.toList.length
      (List.replicate c.symbols.toList.length 0) =
        matrixOf c.symbols.toList (togetherIn []) := by
    rw [matrixOf, ← List.map_const', ← List.map_const']
    rfl
  rw [coUsage, hzeros, foldlM_countSet c.symbols.toList_nodup hc, pure_bind]
  exact congrArg (fun matrix => pure (CoUsage.mk c.symbols.toList matrix)) c.coUsage_matrix.symm

theorem length_usage_le {inspector : Symbols.Inspector} {header : String} {symbols : Names}
    {dependents : List String} {cache : UsageCache}
    (h : Split.Collected inspector header symbols (distinct dependents)
      (UsageCache.empty header symbols) cache) :
    cache.usage.values.length ≤ dependents.length := by
  have hkeys : cache.usage.keys ⊆ dependents := by
    intro d hd
    by_contra hm
    have hnone : cache.usage[d]? = none := h.other d (mt mem_distinct.mp hm)
    rw [Std.ExtTreeMap.mem_keys, Std.ExtTreeMap.mem_iff_isSome_getElem?, hnone] at hd
    cases hd
  rw [Table.values_eq_map_keys cache.usage ∅, List.length_map]
  exact (List.subperm_of_subset Std.ExtTreeMap.nodup_keys hkeys).length_le

/-! ## The matrix -/

/-- Counting pair by pair in counters of 32 bits gives the number of dependents for each two
declared symbols, and nothing else that is recorded has a part in it. -/
theorem coUsage_counts {c : UsageCache} (hc : c.usage.size < UInt32.size) {r : CoUsage}
    (hr : c.coUsage = r) :
    coUsage c = pure r ∧
      r.symbols.Pairwise (· < ·) ∧ (∀ x, x ∈ r.symbols ↔ x ∈ c.symbols) ∧
      r.matrix.length = r.size ∧ (∀ row ∈ r.matrix, row.length = r.size) ∧
      (∀ (i j : Nat) (x y : String), r.symbols[i]? = some x → r.symbols[j]? = some y →
        r.entry? i j = some (c.usersOfBoth x y).length) ∧
      (∀ i j, r.entry? i j = r.entry? j i) ∧
      (∀ i j n, r.entry? i j = some n →
        (∃ d, r.entry? i i = some d ∧ n ≤ d) ∧ ∃ d, r.entry? j j = some d ∧ n ≤ d) ∧
      ∀ c' : UsageCache, c'.symbols = c.symbols → c'.usage.keys = c.usage.keys →
        (∀ d ∈ c.usage.keys, ∀ x ∈ c.symbols, c'.uses d x = c.uses d x) → c'.coUsage = r := by
  subst hr
  have hsize : c.usage.values.length < UInt32.size := by
    rwa [Table.values_eq_map_keys c.usage ∅, List.length_map, Std.ExtTreeMap.length_keys]
  refine ⟨coUsage_eq hsize, c.symbols.toList_sorted, fun x => Std.ExtTreeSet.mem_toList, ?_, ?_,
    ?_, c.entry?_comm, ?_, fun c' hsymbols hkeys huses => UsageCache.coUsage_congr hsymbols hkeys huses⟩
  · rw [c.coUsage_matrix, List.length_map]
    rfl
  · intro row hrow
    rw [c.coUsage_matrix] at hrow
    obtain ⟨x, -, rfl⟩ := List.mem_map.mp hrow
    exact List.length_map _
  · intro i j x y hx hy
    rw [UsageCache.coUsage_symbols] at hx hy
    rw [c.entry?_coUsage, hx, hy, Option.bind_some, Option.map_some]
  · intro i j n h
    exact ⟨c.entry?_le_diagonal h, c.entry?_le_diagonal (c.entry?_comm i j ▸ h)⟩

section Example

def threeFiles : UsageCache :=
  ((UsageCache.empty "a.h" (Names.ofList ["B", "C", "A"])).record "x.cpp" (Names.ofList ["B", "A"])
    |>.record "y.cpp" (Names.ofList ["A", "C"])).record "z.cpp" (Names.ofList ["A", "Unknown"])

/-- One of the files uses a name that the header does not declare. -/
theorem threeFiles_counts :
    threeFiles.usage.size = 3 ∧ coUsage threeFiles = pure threeFiles.coUsage ∧
      threeFiles.coUsage.symbols = ["A", "B", "C"] ∧
      threeFiles.coUsage.entry? 0 0 = some 3 ∧ threeFiles.coUsage.entry? 0 1 = some 1 := by
  have hsize : threeFiles.usage.size = 3 := by decide +kernel
  have hsymbols : threeFiles.coUsage.symbols = ["A", "B", "C"] := by decide +kernel
  have hsmall : threeFiles.usage.size < UInt32.size := by
    rw [hsize]
    decide
  obtain ⟨hchecked, -, -, -, -, hentry, -⟩ := coUsage_counts hsmall rfl
  have hall : (threeFiles.usersOfBoth "A" "A").length = 3 := by decide +kernel
  have hone : (threeFiles.usersOfBoth "A" "B").length = 1 := by decide +kernel
  refine ⟨hsize, hchecked, hsymbols, ?_, ?_⟩
  · rw [hentry 0 0 "A" "A" (by rw [hsymbols]; rfl) (by rw [hsymbols]; rfl), hall]
  · rw [hentry 0 1 "A" "B" (by rw [hsymbols]; rfl) (by rw [hsymbols]; rfl), hone]

end Example

end BuildAdvisor.Checked
