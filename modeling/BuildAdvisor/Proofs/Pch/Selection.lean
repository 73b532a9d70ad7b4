import BuildAdvisor.Proofs.Pch.Candidate
import BuildAdvisor.Proofs.Pch.Cost
import BuildAdvisor.Proofs.Scalar.Product
import BuildAdvisor.Proofs.Scalar.Ranking

/-!
Which headers a selection of candidates takes, told from the edges as they were added.

* `edgesInto`, `Qualifies` — the edges into a header, and what they and its path must be like;
* `mem_ranked_headers_iff` — the ranking has the headers that qualify, and no others;
* `rated`, `eq_rated` — the candidate that a header makes, whether it qualifies or not;
* `ranked_outranks` — where candidates stand in the ranking;
* `ranked_headers_mono` — a lower ratio leaves no header out;
* `selection_exact` — so a selection is the beginning of the ranking of all that qualify.
-/

set_option autoImplicit false

namespace BuildAdvisor.Pch

open BuildAdvisor.Graph

/-! ## Headers that qualify -/

/-- One for each time an edge was added. -/
def edgesInto (edges : List (String × Edge)) (header : String) : List (String × Edge) :=
  edges.filter fun p => p.2.target == header

/-- The ratio is that of edges to units, which repeated edges take above one. -/
structure Qualifies {α : Type} [Scalar α] (t : Trace α) (edges : List (String × Edge)) (ratio : α)
    (header : String) : Prop where
  units : t.units ≠ []
  included : edgesInto edges header ≠ []
  enough : (t.units.length : α) * ratio ≤ ((edgesInto edges header).length : α)
  ordinary : HeaderPath.isSystemHeader header = false
  unflagged : ∀ p ∈ edgesInto edges header, p.2.flagged = false

section Inclusions

variable {g : Graph} {l : EdgeLog} (h : Tracks g l) (header : String)

include h

theorem inclusionCount_eq_edgesInto :
    inclusionCount (inclusions g) header = (edgesInto l.edges header).length := by
  rw [inclusionCount_eq h, h.dependents header, List.length_map]
  rfl

theorem mem_inclusions_iff : header ∈ inclusions g ↔ edgesInto l.edges header ≠ [] := by
  have hmem := Table.mem_foldl_alter (· + ·) 0 (∅ : Table Nat)
    ((g.edges.map Edge.target).map fun target => (target, 1)) header
  rw [List.foldl_map, List.map_map] at hmem
  have htargets : header ∈ inclusions g ↔ header ∈ g.edges.map Edge.target := by
    unfold inclusions
    simpa [Function.comp_def] using hmem
  rw [htargets, (h.edges_perm.map Edge.target).mem_iff, edgesInto, Ne, List.filter_eq_nil_iff]
  simp

theorem contains_flaggedHeaders_eq_false_iff :
    g.flaggedHeaders.contains header = false ↔
      ∀ p ∈ edgesInto l.edges header, p.2.flagged = false := by
  rw [← Bool.not_eq_true, Std.ExtTreeSet.contains_iff_mem, h.mem_flaggedHeaders]
  simp only [edgesInto, List.mem_filter, beq_iff_eq, not_exists, not_and, and_imp]
  constructor
  · intro hn p hp ht
    by_contra hf
    exact hn p hp (by simpa using hf) ht
  · intro hn p hp hf ht
    rw [hn p hp ht] at hf
    cases hf

end Inclusions

section Ranked

variable {α : Type} [Scalar α] (t : Trace α) {g : Graph} {l : EdgeLog} (h : Tracks g l) (ratio : α)

/-- The candidate that a header would make. -/
def rated (g : Graph) (header : String) : Candidate α :=
  Candidate.of t.units.length (perFileCosts t g) header (inclusionCount (inclusions g) header)

variable {t ratio} in
theorem eq_rated {c : Candidate α} (hc : c ∈ ranked t g ratio) : c = rated t g c.header :=
  eq_of_mem_ranked t g ratio hc

include h

theorem eligible_iff {header : String} {units count : Nat} :
    eligible units ratio g.flaggedHeaders header count = true ↔
      (units : α) * ratio ≤ (count : α) ∧ HeaderPath.isSystemHeader header = false ∧
        ∀ p ∈ edgesInto l.edges header, p.2.flagged = false := by
  rw [← contains_flaggedHeaders_eq_false_iff h header, eligible, Bool.and_eq_true,
    Bool.and_eq_true, decide_eq_true_iff, Bool.not_eq_true', Bool.not_eq_true', and_assoc]

theorem mem_ranked_headers_iff {header : String} :
    header ∈ (ranked t g ratio).map Candidate.header ↔ Qualifies t l.edges ratio header := by
  constructor
  · intro hm
    obtain ⟨c, hc, rfl⟩ := List.mem_map.mp hm
    obtain ⟨count, hcount, heligible, -⟩ := exists_count_of_mem_ranked t g ratio hc
    obtain ⟨henough, hordinary, hunflagged⟩ := (eligible_iff h ratio).mp heligible
    have hlength := inclusionCount_of_get? hcount
    rw [inclusionCount_eq_edgesInto h] at hlength
    refine ⟨?_, ?_, hlength ▸ henough, hordinary, hunflagged⟩
    · rintro hnil
      rw [ranked_nil t g ratio (List.length_eq_zero_iff.mpr hnil)] at hc
      cases hc
    · refine (mem_inclusions_iff h _).mp (Std.ExtTreeMap.mem_iff_isSome_getElem?.mpr ?_)
      rw [hcount, Option.isSome_some]
  · intro q
    have hunits : t.units.length ≠ 0 := fun hz => q.units (List.length_eq_zero_iff.mp hz)
    have hget : (inclusions g)[header]? = some (edgesInto l.edges header).length := by
      rw [← inclusionCount_eq_edgesInto h]
      exact Std.ExtTreeMap.getElem?_eq_some_getD ((mem_inclusions_iff h header).mpr q.included)
    have heligible := (eligible_iff h ratio).mpr ⟨q.enough, q.ordinary, q.unflagged⟩
    refine (ranked_headers_perm t g ratio hunits).mem_iff.mpr (List.mem_map.mpr
      ⟨(header, (edgesInto l.edges header).length), List.mem_filter.mpr ⟨?_, heligible⟩, rfl⟩)
    exact Std.ExtTreeMap.mem_toList_iff_getElem?_eq_some.mpr hget

end Ranked

/-! ## Order -/

section Order

variable (t : Trace Float) {g : Graph} {ratio : Float}

theorem ranked_outranks (g : Graph) (ratio : Float) :
    (ranked t g ratio).Pairwise (Double.Outranks Candidate.benefit Candidate.header) := by
  by_cases hu : t.units.length = 0
  · rw [ranked_nil t g ratio hu]
    exact List.Pairwise.nil
  · have hkeys : (inclusions g).toList.Pairwise fun p q => p.1 < q.1 := by
      rw [← List.pairwise_map, Std.ExtTreeMap.map_fst_toList_eq_keys]
      exact Table.keys_ascending _
    rw [ranked, if_neg hu]
    apply Double.pairwise_outranks
    rw [List.pairwise_map]
    exact hkeys.filter _

theorem candidate_outranks_rated {count : Nat} {header : String} {c : Candidate Float}
    (hc : c ∈ candidates t g count ratio)
    (hm : header ∈ (ranked t g ratio).map Candidate.header)
    (hnot : header ∉ (candidates t g count ratio).map Candidate.header) :
    Double.Outranks Candidate.benefit Candidate.header c (rated t g header) := by
  obtain ⟨d, hd, rfl⟩ := List.mem_map.mp hm
  have hdropped : d ∉ candidates t g count ratio := fun hf => hnot (List.mem_map_of_mem hf)
  rw [← eq_rated hd]
  exact Double.outranks_dropped (ranked_outranks t g ratio) hc hd hdropped

variable {t}

/-- The bound that the edges into a header must reach moves with the ratio, rounded as it is. -/
theorem Qualifies.mono {edges : List (String × Edge)} {header : String} {lower : Float}
    (q : Qualifies t edges ratio header) (hlower : lower ≤ ratio)
    (hsize : t.units.length < UInt64.size) : Qualifies t edges lower header := by
  have hunits : 0 < t.units.length := List.length_pos_iff.mpr q.units
  exact { q with
    enough := Double.le_trans_of_le (Double.count_mul_le_mul hunits hsize hlower) q.enough }

end Order

/-! ## Selections -/

theorem length_candidates {ops : List Operation} (t : Trace Float) (ratio : Float) (count : Nat) :
    (candidates t (run ops) count ratio).length =
      min count {header | Qualifies t (EdgeLog.run ops).edges ratio header}.ncard := by
  have hset : {header | Qualifies t (EdgeLog.run ops).edges ratio header} =
      ((ranked t (run ops) ratio).map Candidate.header).toFinset := by
    ext header
    rw [Set.mem_ofPred_eq, Finset.mem_coe, List.mem_toFinset,
      mem_ranked_headers_iff t (tracks_run ops) ratio]
  rw [hset, Set.ncard_coe_finset,
    List.toFinset_card_of_nodup (ranked_headers_nodup t (run ops) ratio), List.length_map,
    candidates, List.length_take]

/-- A selection holds headers that qualify, each once and with the number of edges into it, the
most beneficial first and names ascending where benefits are equal.  It is as long as its limit and
the number of such headers allow, and what qualifies and is left out comes after all of it.  At a
lower ratio everything that qualified still does; a machine word of units is far from the numbers
that double precision takes for infinite. -/
theorem selection_exact (ops : List Operation) (t : Trace Float) (ratio : Float) :
    let g := run ops
    let edges := (EdgeLog.run ops).edges
    (∀ count,
      let found := candidates t g count ratio
      (found.map Candidate.header).Nodup ∧
      (∀ c ∈ found, Qualifies t edges ratio c.header ∧ c = rated t g c.header ∧
        c.inclusionCount = (edgesInto edges c.header).length) ∧
      found.Pairwise (Double.Outranks Candidate.benefit Candidate.header) ∧
      found.length = min count {header | Qualifies t edges ratio header}.ncard ∧
      ∀ header, Qualifies t edges ratio header → header ∉ found.map Candidate.header →
        ∀ c ∈ found, Double.Outranks Candidate.benefit Candidate.header c (rated t g header)) ∧
    (∀ header, header ∈ (ranked t g ratio).map Candidate.header ↔
      Qualifies t edges ratio header) ∧
    ∀ lower, lower ≤ ratio → t.units.length < UInt64.size →
      ∀ header ∈ (ranked t g ratio).map Candidate.header,
        header ∈ (ranked t g lower).map Candidate.header := by
  intro g edges
  have h : Tracks g (EdgeLog.run ops) := tracks_run ops
  have hmem : ∀ ratio header, header ∈ (ranked t g ratio).map Candidate.header ↔
      Qualifies t edges ratio header := fun ratio _ => mem_ranked_headers_iff t h ratio
  refine ⟨?_, hmem ratio, ?_⟩
  · intro count found
    have hsub : found.Sublist (ranked t g ratio) := candidates_sublist t g ratio count
    refine ⟨candidates_headers_nodup t g ratio count, ?_, (ranked_outranks t g ratio).sublist hsub,
      length_candidates t ratio count, ?_⟩
    · intro c hc
      have hrated := eq_rated (hsub.mem hc)
      refine ⟨(hmem ratio _).mp (List.mem_map_of_mem (hsub.mem hc)), hrated, ?_⟩
      rw [← inclusionCount_eq_edgesInto h]
      exact congrArg Candidate.inclusionCount hrated
    · exact fun header q hnot c hc => candidate_outranks_rated t hc ((hmem ratio _).mpr q) hnot
  · intro lower hlower hsize header hm
    exact (hmem lower header).mpr (((hmem ratio header).mp hm).mono hlower hsize)

/-- Two headers that every unit includes and pays the same for, and one that a single edge marks as
a system header. -/
def twinOperations : List Operation :=
  [.addEdge "a.cpp" "right.h" .direct, .addEdge "a.cpp" "left.h" .direct,
    .addEdge "a.cpp" "os.h" .direct, .addEdge "b.cpp" "right.h" .direct,
    .addEdge "b.cpp" "left.h" .direct, .addDependencyEdge "b.cpp" ⟨"os.h", .direct, 0, true, 1.0⟩]

def twinTrace : Trace Float :=
  { (Trace.empty : Trace Float) with
    units := [
      { (CompilationUnit.empty : CompilationUnit Float) with
        path := "a.cpp", total := 90.0, preprocessing := 90.0 },
      { (CompilationUnit.empty : CompilationUnit Float) with
        path := "b.cpp", total := 60.0, preprocessing := 60.0 }] }

theorem twin_ranked :
    (ranked twinTrace (run twinOperations) 1.0).map Candidate.header = ["left.h", "right.h"] := by
  have hunits : twinTrace.units.length ≠ 0 := by decide
  rw [ranked, if_neg hunits, List.mergeSort_of_pairwise]
  · decide +kernel
  · decide +kernel

/-- The limit falls between the two, and the number of edges is the least that the ratio allows. -/
theorem twin_selection :
    let g := run twinOperations
    (candidates twinTrace g 1 1.0).map Candidate.header = ["left.h"] ∧
      (∃ c ∈ candidates twinTrace g 1 1.0, c.inclusionCount = 2 ∧
        Double.Outranks Candidate.benefit Candidate.header c (rated twinTrace g "right.h")) ∧
      (0.5 : Float) ≤ 1.0 ∧ "right.h" ∈ (ranked twinTrace g 0.5).map Candidate.header := by
  intro g
  obtain ⟨hfound, hmem, hlower⟩ := selection_exact twinOperations twinTrace 1.0
  have hheaders : (candidates twinTrace g 1 1.0).map Candidate.header = ["left.h"] := by
    rw [candidates, List.map_take, twin_ranked]
    rfl
  have hright : "right.h" ∈ (ranked twinTrace g 1.0).map Candidate.header := by
    rw [twin_ranked]
    exact List.mem_cons_of_mem _ List.mem_cons_self
  have hhalf : (0.5 : Float) ≤ 1.0 := by decide +kernel
  obtain ⟨-, hcandidate, -, -, hout⟩ := hfound 1
  obtain ⟨c, hc, hleft⟩ : ∃ c ∈ candidates twinTrace g 1 1.0, c.header = "left.h" :=
    List.mem_map.mp (hheaders ▸ List.mem_singleton.mpr rfl)
  have hnot : "right.h" ∉ (candidates twinTrace g 1 1.0).map Candidate.header := by
    rw [hheaders]
    decide
  have hcount := (hcandidate c hc).2.2
  rw [hleft] at hcount
  refine ⟨hheaders, ⟨c, hc, hcount.trans (by decide), hout _ ((hmem _).mp hright) hnot c hc⟩,
    hhalf, hlower 0.5 hhalf (by decide) _ hright⟩

end BuildAdvisor.Pch
