import BuildAdvisor.Pch.Candidate
import BuildAdvisor.Proofs.Table

/-!
What a ranking of candidates holds.

* `ranked_headers_perm`, `eligible_of_mem_ranked` — each included header that is eligible stands
  in it, once, and no other;
* `eq_of_mem_ranked` — a candidate is computed from its header and the inclusions of it;
* `ranked_pairwise` — the benefits descend;
* `candidates_sublist`, `additions_headers` — candidates and additions keep its order.
-/

set_option autoImplicit false

namespace BuildAdvisor.Pch

variable {α : Type} [Scalar α] (t : Trace α) (g : Graph) (ratio : α)

theorem ranked_nil (h : t.units.length = 0) : ranked t g ratio = [] := by
  rw [ranked, if_pos h]

theorem ranked_headers_perm (h : t.units.length ≠ 0) :
    ((ranked t g ratio).map Candidate.header).Perm
      (((inclusions g).toList.filter fun p =>
        eligible t.units.length ratio g.flaggedHeaders p.1 p.2).map Prod.fst) := by
  rw [ranked, if_neg h]
  refine ((List.mergeSort_perm _ _).map _).trans ?_
  rw [List.map_map]
  exact List.Perm.refl _

theorem exists_count_of_mem_ranked {c : Candidate α} (hc : c ∈ ranked t g ratio) :
    ∃ count, (inclusions g)[c.header]? = some count ∧
      eligible t.units.length ratio g.flaggedHeaders c.header count = true ∧
      c = Candidate.of t.units.length (perFileCosts t g) c.header count := by
  by_cases h : t.units.length = 0
  · rw [ranked_nil t g ratio h] at hc
    cases hc
  · rw [ranked, if_neg h, List.mem_mergeSort] at hc
    obtain ⟨⟨header, count⟩, hentry, rfl⟩ := List.mem_map.mp hc
    obtain ⟨hm, heligible⟩ := List.mem_filter.mp hentry
    exact ⟨count, Std.ExtTreeMap.mem_toList_iff_getElem?_eq_some.mp hm, heligible, rfl⟩

theorem inclusionCount_of_get? {table : Table Nat} {header : String} {count : Nat}
    (h : table[header]? = some count) : inclusionCount table header = count := by
  rw [inclusionCount, Std.ExtTreeMap.getD_eq_getD_getElem?, h, Option.getD_some]

theorem eligible_of_mem_ranked {c : Candidate α} (hc : c ∈ ranked t g ratio) :
    eligible t.units.length ratio g.flaggedHeaders c.header
      (inclusionCount (inclusions g) c.header) = true := by
  obtain ⟨count, hcount, heligible, -⟩ := exists_count_of_mem_ranked t g ratio hc
  rwa [inclusionCount_of_get? hcount]

theorem eq_of_mem_ranked {c : Candidate α} (hc : c ∈ ranked t g ratio) :
    c = Candidate.of t.units.length (perFileCosts t g) c.header
      (inclusionCount (inclusions g) c.header) := by
  obtain ⟨count, hcount, -, heq⟩ := exists_count_of_mem_ranked t g ratio hc
  rwa [inclusionCount_of_get? hcount]

theorem ranked_headers_nodup : ((ranked t g ratio).map Candidate.header).Nodup := by
  by_cases h : t.units.length = 0
  · rw [ranked_nil t g ratio h]
    exact List.nodup_nil
  · have hkeys : ((inclusions g).toList.map Prod.fst).Nodup := by
      rw [Std.ExtTreeMap.map_fst_toList_eq_keys]
      exact Std.ExtTreeMap.nodup_keys
    exact (ranked_headers_perm t g ratio h).nodup_iff.mpr
      (hkeys.sublist (List.filter_sublist.map Prod.fst))

theorem ranked_pairwise :
    (ranked t g ratio).Pairwise fun a b => Scalar.descending a.benefit b.benefit = true := by
  by_cases h : t.units.length = 0
  · rw [ranked_nil t g ratio h]
    exact List.Pairwise.nil
  · rw [ranked, if_neg h]
    apply List.pairwise_mergeSort
    · exact fun a b c hab hbc => Scalar.precedes_trans _ _ _ hbc hab
    · exact fun a b => Scalar.precedes_total _ _

variable (count : Nat)

theorem candidates_sublist : (candidates t g count ratio).Sublist (ranked t g ratio) :=
  List.take_sublist count _

theorem candidates_headers_nodup : ((candidates t g count ratio).map Candidate.header).Nodup :=
  (ranked_headers_nodup t g ratio).sublist ((candidates_sublist t g ratio count).map _)

theorem additions_headers (current : List String) :
    (additions t g current count ratio).map Candidate.header =
      ((candidates t g count ratio).map Candidate.header).filter fun h => !current.contains h := by
  rw [additions, List.filter_map]
  rfl

end BuildAdvisor.Pch
