import Mathlib.Algebra.BigOperators.Ring.List
import BuildAdvisor.Pch.Cost
import BuildAdvisor.Proofs.Graph.Log
import BuildAdvisor.Proofs.Rational

/-!
No preprocessing time is lost between units and headers.

* `inclusionCount_eq` — a header is counted once for each source that points at it;
* `mem_collected_iff` — only edges from units with preprocessing time bring a header a cost, and
  without one it costs zero (`costOf_eq_zero`);
* `costOf_eq_div` — the cost is shared among the dependents;
* `sum_shares`, `sum_collected` — the shares of a unit make up its time, and what the headers
  collect makes up the time of all units;
* `cost_mul_dependents` — a header's cost, paid by each of its dependents, is what it collected;
* `run_conserves_time` — so the costs of all headers account for the time of the units that
  include something, and precompiling headers saves at most the recoverable part of it.

Who pays for a header is told for any number type; the rest is exact arithmetic.  Forward and
reverse edges agree in every graph that operations build.
-/

set_option autoImplicit false

namespace BuildAdvisor.Pch

open BuildAdvisor.Graph

/-! ## Inclusions -/

/-- The table that a beginning of the edges has made counts the targets in it. -/
theorem inclusionCount_foldl (targets : List String) (header : String) :
    inclusionCount (targets.foldl
      (fun table target => table.alter target fun n => some (n.getD 0 + 1)) ∅) header =
        targets.count header := by
  have hones : (((targets.map fun target => (target, 1)).filter fun p => p.1 == header).map
      Prod.snd).sum = targets.count header := by
    induction targets with
    | nil => rfl
    | cons target rest ih =>
      by_cases he : target = header <;> simp [he, ih, Nat.add_comm]
  have h := Table.getD_foldl_alter (· + ·) 0 ∅ (targets.map fun target => (target, 1)) header
  rw [Std.ExtTreeMap.getD_empty, ← List.sum_eq_foldl, hones, List.foldl_map] at h
  exact h

theorem inclusionCount_eq_count (g : Graph) (header : String) :
    inclusionCount (inclusions g) header = (g.edges.map Edge.target).count header :=
  inclusionCount_foldl (g.edges.map Edge.target) header

theorem inclusionCount_eq {g : Graph} {l : EdgeLog} (h : Tracks g l) (header : String) :
    inclusionCount (inclusions g) header = (g.dependents header).length := by
  rw [inclusionCount_eq_count, (h.edges_perm.map Edge.target).count_eq, h.dependents header,
    List.length_map, List.map_map, List.count_eq_countP, List.countP_map,
    List.countP_eq_length_filter]
  rfl

/-! ## Who pays for a header -/

section Payers

variable {α : Type} [Scalar α] {t : Trace α} {g : Graph} {header : String}

theorem mem_shares_iff {u : CompilationUnit α} {p : String × α} :
    p ∈ shares g u ↔ ¬ u.preprocessing ≤ 0.0 ∧ p.1 ∈ g.dependencies u.path ∧
      p.2 = u.preprocessing / ((g.dependencies u.path).length : α) := by
  rw [shares]
  by_cases h : u.preprocessing ≤ 0.0
  · simp [h]
  · by_cases hnil : g.dependencies u.path = []
    · simp [hnil]
    · rw [if_neg (by simp [h, hnil]), List.mem_map]
      constructor
      · rintro ⟨target, hm, rfl⟩
        exact ⟨h, hm, rfl⟩
      · rintro ⟨-, hm, hshare⟩
        exact ⟨p.1, hm, Prod.ext rfl hshare.symm⟩

theorem mem_collected :
    header ∈ collected t g ↔ ∃ p ∈ t.units.flatMap (shares g), p.1 = header := by
  have h := Table.mem_foldl_alter (· + ·) (0.0 : α) ∅ (t.units.flatMap (shares g)) header
  rw [List.mem_map] at h
  exact h.trans (or_iff_right Std.ExtTreeMap.not_mem_empty)

theorem mem_collected_iff :
    header ∈ collected t g ↔
      ∃ u ∈ t.units, ¬ u.preprocessing ≤ 0.0 ∧ header ∈ g.dependencies u.path := by
  rw [mem_collected]
  constructor
  · rintro ⟨p, hp, rfl⟩
    obtain ⟨u, hu, hs⟩ := List.mem_flatMap.mp hp
    obtain ⟨htime, hm, -⟩ := mem_shares_iff.mp hs
    exact ⟨u, hu, htime, hm⟩
  · rintro ⟨u, hu, htime, hm⟩
    exact ⟨(header, _), List.mem_flatMap.mpr ⟨u, hu, mem_shares_iff.mpr ⟨htime, hm, rfl⟩⟩, rfl⟩

/-- A header starts from zero and takes one share after the other. -/
theorem getD_collected_eq_foldl :
    (collected t g).getD header 0.0 =
      (((t.units.flatMap (shares g)).filter fun p => p.1 == header).map Prod.snd).foldl (· + ·)
        0.0 :=
  Table.getD_foldl_alter (· + ·) (0.0 : α) ∅ (t.units.flatMap (shares g)) header

theorem mem_perFileCosts : header ∈ perFileCosts t g ↔ header ∈ collected t g :=
  Std.ExtTreeMap.mem_map

theorem dependents_pos {l : EdgeLog} (h : Tracks g l) (hm : header ∈ collected t g) :
    0 < (g.dependents header).length := by
  obtain ⟨u, -, -, hu⟩ := mem_collected_iff.mp hm
  exact List.length_pos_of_mem (h.mem_dependents.mpr hu)

theorem costOf_eq_zero (hm : header ∉ collected t g) : costOf (perFileCosts t g) header = 0.0 :=
  Std.ExtTreeMap.getD_eq_fallback (mt mem_perFileCosts.mp hm)

theorem costOf_of_mem (hm : header ∈ collected t g) :
    costOf (perFileCosts t g) header =
      if 0 < (g.dependents header).length then
        (collected t g).getD header 0.0 / ((g.dependents header).length : α)
      else (collected t g).getD header 0.0 := by
  have htotal : (collected t g)[header]? = some ((collected t g).getD header 0.0) :=
    Std.ExtTreeMap.getElem?_eq_some_getD hm
  rw [costOf, perFileCosts, Std.ExtTreeMap.getD_map, htotal]
  rfl

/-- The guard against division by zero is never needed: what has been charged has a dependent. -/
theorem costOf_eq_div {l : EdgeLog} (h : Tracks g l) (hm : header ∈ collected t g) :
    costOf (perFileCosts t g) header =
      (collected t g).getD header 0.0 / ((g.dependents header).length : α) := by
  rw [costOf_of_mem hm, if_pos (dependents_pos h hm)]

end Payers

/-! ## Shares -/

section Shares

variable (t : Trace Rat) (g : Graph)

/-- Whether a unit has preprocessing time, and includes something to charge it to. -/
def charges (u : CompilationUnit Rat) : Bool :=
  decide (0 < u.preprocessing) && !(g.edgesFrom u.path).isEmpty

/-- The preprocessing time of all units that charge it to headers. -/
def chargedTime : Rat :=
  ((t.units.filter (charges g)).map CompilationUnit.preprocessing).sum

variable {t g}

theorem charges_iff {u : CompilationUnit Rat} :
    charges g u = true ↔ 0 < u.preprocessing ∧ g.dependencies u.path ≠ [] := by
  simp [charges, dependencies]

theorem shares_eq (u : CompilationUnit Rat) :
    shares g u =
      if charges g u then
        (g.dependencies u.path).map fun target =>
          (target, u.preprocessing / ((g.dependencies u.path).length : Rat))
      else [] := by
  have hnone : (u.preprocessing ≤ 0.0 ∨ (g.dependencies u.path).isEmpty) ↔ ¬ charges g u = true := by
    rw [charges_iff, Rational.zero_literal, List.isEmpty_iff, not_and_or, not_lt, not_not]
  rw [shares]
  by_cases h : charges g u = true
  · rw [if_neg (by simpa only [hnone, not_not] using h), if_pos h]
  · rw [if_pos (hnone.mpr h), if_neg h]

theorem share_pos {u : CompilationUnit Rat} {p : String × Rat} (h : p ∈ shares g u) : 0 < p.2 := by
  obtain ⟨htime, hm, hs⟩ := mem_shares_iff.mp h
  rw [Rational.zero_literal, not_le] at htime
  rw [hs]
  exact div_pos htime (by exact_mod_cast List.length_pos_of_mem hm)

theorem sum_shares (u : CompilationUnit Rat) :
    ((shares g u).map Prod.snd).sum = if charges g u then u.preprocessing else 0 := by
  rw [shares_eq]
  by_cases h : charges g u = true
  · have hlen : ((g.dependencies u.path).length : Rat) ≠ 0 := by
      simpa using (charges_iff.mp h).2
    rw [if_pos h, if_pos h, List.map_map]
    simp [Function.comp_def, mul_div_cancel₀ _ hlen]
  · rw [if_neg h, if_neg h]
    rfl

theorem sum_all_shares :
    ((t.units.flatMap (shares g)).map Prod.snd).sum = chargedTime t g := by
  rw [chargedTime]
  induction t.units with
  | nil => rfl
  | cons u rest ih =>
    rw [List.flatMap_cons, List.map_append, List.sum_append, ih, sum_shares, List.filter_cons]
    by_cases h : charges g u = true
    · simp [h]
    · simp [h]

/-! ## What headers collect -/

theorem getD_collected (header : String) :
    (collected t g).getD header 0 =
      (((t.units.flatMap (shares g)).filter fun p => p.1 == header).map Prod.snd).sum := by
  rw [List.sum_eq_foldl, ← Rational.zero_literal, getD_collected_eq_foldl]

theorem collected_pos {header : String} (h : header ∈ collected t g) :
    0 < (collected t g).getD header 0 := by
  obtain ⟨p, hp, rfl⟩ := mem_collected.mp h
  rw [getD_collected]
  apply List.sum_pos
  · intro x hx
    obtain ⟨q, hq, rfl⟩ := List.mem_map.mp hx
    obtain ⟨u, -, hu⟩ := List.mem_flatMap.mp (List.mem_of_mem_filter hq)
    exact share_pos hu
  · exact List.ne_nil_of_mem (List.mem_map_of_mem (List.mem_filter.mpr ⟨hp, by simp⟩))

theorem collected_nonneg (header : String) : 0 ≤ (collected t g).getD header 0 := by
  by_cases h : header ∈ collected t g
  · exact (collected_pos h).le
  · rw [Std.ExtTreeMap.getD_eq_fallback h]

theorem sum_collected_nonneg (headers : List String) :
    0 ≤ (headers.map fun x => (collected t g).getD x 0).sum := by
  apply List.sum_nonneg
  intro y hy
  obtain ⟨x, -, rfl⟩ := List.mem_map.mp hy
  exact collected_nonneg x

theorem sum_collected {headers : List String} (hn : headers.Nodup)
    (hall : ∀ x ∈ collected t g, x ∈ headers) :
    (headers.map fun x => (collected t g).getD x 0).sum = chargedTime t g := by
  have hcover : ∀ p ∈ t.units.flatMap (shares g), p.1 ∈ headers :=
    fun p hp => hall p.1 (mem_collected.mpr ⟨p, hp, rfl⟩)
  simp only [getD_collected]
  rw [sum_fibres_weight Prod.fst Prod.snd headers _ hn hcover, sum_all_shares]

theorem sum_collected_le {headers : List String} (hn : headers.Nodup) :
    (headers.map fun x => (collected t g).getD x 0).sum ≤ chargedTime t g := by
  -- The list is completed by the headers that it leaves out.
  let others := (collected t g).keys.filter fun x => !headers.contains x
  have hothers : ∀ x, x ∈ others ↔ x ∈ collected t g ∧ x ∉ headers := by
    intro x
    simp [others]
  have hnodup : (headers ++ others).Nodup := by
    refine List.nodup_append.mpr ⟨hn, Std.ExtTreeMap.nodup_keys.filter _, ?_⟩
    rintro x hx y hy rfl
    exact ((hothers x).mp hy).2 hx
  have hall : ∀ x ∈ collected t g, x ∈ headers ++ others := by
    intro x hx
    by_cases hm : x ∈ headers
    · exact List.mem_append_left _ hm
    · exact List.mem_append_right _ ((hothers x).mpr ⟨hx, hm⟩)
  have hsum := sum_collected hnodup hall
  rw [List.map_append, List.sum_append] at hsum
  rw [← hsum]
  exact le_add_of_nonneg_right (sum_collected_nonneg others)

/-! ## Costs -/

theorem cost_mul_dependents {l : EdgeLog} (h : Tracks g l) (header : String) :
    costOf (perFileCosts t g) header * ((g.dependents header).length : Rat) =
      (collected t g).getD header 0 := by
  by_cases hm : header ∈ collected t g
  · have hne : ((g.dependents header).length : Rat) ≠ 0 := by
      exact_mod_cast Nat.ne_of_gt (dependents_pos h hm)
    rw [costOf_eq_div h hm, div_mul_cancel₀ _ hne, Rational.zero_literal]
  · rw [costOf_eq_zero hm, Std.ExtTreeMap.getD_eq_fallback hm, Rational.zero_literal, zero_mul]

theorem cost_pos {l : EdgeLog} (h : Tracks g l) {header : String} (hm : header ∈ collected t g) :
    0 < costOf (perFileCosts t g) header := by
  rw [costOf_eq_div h hm, Rational.zero_literal]
  exact div_pos (collected_pos hm) (by exact_mod_cast dependents_pos h hm)

theorem collected_mem_nodes {l : EdgeLog} (h : Tracks g l) {header : String}
    (hm : header ∈ collected t g) : header ∈ g.nodes := by
  by_contra hn
  have hnil := h.dependents_eq_nil (mt h.mem_nodes.mpr hn)
  have hlen := dependents_pos h hm
  rw [hnil] at hlen
  exact Nat.lt_irrefl 0 hlen

theorem estimateSavings_eq {l : EdgeLog} (h : Tracks g l) (headers : List String) :
    estimateSavings t g headers =
      0.8 * (headers.map fun x => (collected t g).getD x 0).sum := by
  have hsaved : ∀ x, savedBy (costOf (perFileCosts t g) x) (inclusionCount (inclusions g) x) =
      0.8 * (collected t g).getD x 0 := by
    intro x
    rw [savedBy, inclusionCount_eq h, cost_mul_dependents h, mul_comm]
    rfl
  cases headers with
  | nil =>
    change (0.0 : Rat) = _
    rw [Rational.zero_literal]
    simp
  | cons x rest =>
    rw [estimateSavings, if_neg (by simp)]
    simp only [Rational.sum_eq, hsaved]
    rw [List.sum_map_mul_left]

end Shares

/-- In every graph that operations build, with edges repeated or between headers, and units that
share a path: what has a cost has dependents to pay it, and all of them together pay the time that
units charge.  Precompiling every node saves the recoverable part of that time, and precompiling
some nodes saves no more. -/
theorem run_conserves_time (ops : List Operation) (t : Trace Rat) :
    let g := run ops
    let costs := perFileCosts t g
    (∀ header ∈ costs, 0 < (g.dependents header).length ∧ 0 < costOf costs header) ∧
    (costs.keys.map fun x => costOf costs x * ((g.dependents x).length : Rat)).sum =
      chargedTime t g ∧
    (∀ headers : List String, headers.Nodup → (∀ n, n ∈ headers ↔ n ∈ g.nodes) →
      estimateSavings t g headers = 0.8 * chargedTime t g) ∧
    ∀ headers : List String, headers.Nodup →
      0 ≤ estimateSavings t g headers ∧
        estimateSavings t g headers ≤ 0.8 * chargedTime t g := by
  intro g costs
  have h : Tracks g (EdgeLog.run ops) := tracks_run ops
  refine ⟨?_, ?_, ?_, ?_⟩
  · intro header hm
    have hc := mem_perFileCosts.mp hm
    exact ⟨dependents_pos h hc, cost_pos h hc⟩
  · simp only [costs, cost_mul_dependents h]
    exact sum_collected Std.ExtTreeMap.nodup_keys fun x hx =>
      Std.ExtTreeMap.mem_keys.mpr (mem_perFileCosts.mpr hx)
  · intro headers hn hall
    rw [estimateSavings_eq h, sum_collected hn fun x hx => (hall x).mpr (collected_mem_nodes h hx)]
  · intro headers hn
    rw [estimateSavings_eq h]
    have hle := @sum_collected_le t g headers hn
    constructor
    · exact mul_nonneg (by norm_num) (sum_collected_nonneg headers)
    · exact mul_le_mul_of_nonneg_left hle (by norm_num)

/-! ## Headers that include headers -/

section Example

/-- An edge is repeated, a header includes another, and one file includes nothing. -/
def layeredOperations : List Operation :=
  [.addEdge "main.cpp" "ui.h" .direct, .addEdge "main.cpp" "ui.h" .transitive,
    .addEdge "main.cpp" "core.h" .direct, .addEdge "ui.h" "core.h" .direct, .addNode "idle.cpp"]

def unitOf (path : String) (preprocessing : Rat) : CompilationUnit Rat :=
  { (CompilationUnit.empty : CompilationUnit Rat) with path, preprocessing }

/-- The main file is compiled twice. -/
def layeredTrace : Trace Rat :=
  { (Trace.empty : Trace Rat) with
    units := [unitOf "main.cpp" 30, unitOf "main.cpp" 60, unitOf "ui.h" 12, unitOf "idle.cpp" 9] }

theorem layered_time :
    "core.h" ∈ perFileCosts layeredTrace (run layeredOperations) ∧
      0 < costOf (perFileCosts layeredTrace (run layeredOperations)) "core.h" ∧
      estimateSavings layeredTrace (run layeredOperations) (run layeredOperations).nodes =
        0.8 * 102 ∧
      estimateSavings layeredTrace (run layeredOperations) ["core.h", "none.h"] ≤ 0.8 * 102 := by
  obtain ⟨hpos, -, hnodes, hle⟩ := run_conserves_time layeredOperations layeredTrace
  have hcharged : chargedTime layeredTrace (run layeredOperations) = 102 := by decide +kernel
  have hcore : "core.h" ∈ perFileCosts layeredTrace (run layeredOperations) := by decide +kernel
  rw [hcharged] at hnodes hle
  exact ⟨hcore, (hpos _ hcore).2, hnodes _ Std.ExtTreeMap.nodup_keys fun _ => Iff.rfl,
    (hle _ (by decide)).2⟩

end Example

end BuildAdvisor.Pch
