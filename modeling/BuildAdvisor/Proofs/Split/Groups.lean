import BuildAdvisor.Split.Proposal
import BuildAdvisor.Proofs.Split.Labels
import Mathlib.Data.Finset.Card
import Mathlib.Data.List.Nodup

/-!
The groups of labelled symbols.

* `groups_map` — where the labels are a function of the symbols, a group is the symbols with one
  label;
* `mem_groups_iff` — there is one group for the label of each symbol, and no other;
* `groups_disjoint`, `flatten_groups_perm` — the groups part the symbols;
* `length_groups_le`, `length_groups_le_card` — there are no more groups than labels are counted,
  and no more than values of whatever decides the label.
-/

set_option autoImplicit false

namespace BuildAdvisor.Split

section Labelled

variable (symbols : List String) (label : String → Nat)

/-- The symbols with one label, in their order. -/
def labelled (l : Nat) : List String :=
  symbols.filter fun x => label x == l

theorem groups_map :
    groups symbols (symbols.map label) =
      ((List.range (clusterCount (symbols.map label))).map (labelled symbols label)).filter
        fun g => !g.isEmpty := by
  simp only [groups, filter_zip_map]
  rfl

variable {symbols label}

theorem mem_labelled_iff {l : Nat} {x : String} :
    x ∈ labelled symbols label l ↔ x ∈ symbols ∧ label x = l := by
  rw [labelled, List.mem_filter, beq_iff_eq]

theorem mem_groups_iff {g : List String} :
    g ∈ groups symbols (symbols.map label) ↔
      ∃ x ∈ symbols, g = labelled symbols label (label x) := by
  rw [groups_map, List.mem_filter, List.mem_map]
  constructor
  · rintro ⟨⟨l, -, rfl⟩, hne⟩
    obtain ⟨x, hx⟩ : ∃ x, x ∈ labelled symbols label l :=
      List.exists_mem_of_ne_nil _ (by simpa using hne)
    obtain ⟨hm, rfl⟩ := mem_labelled_iff.mp hx
    exact ⟨x, hm, rfl⟩
  · rintro ⟨x, hx, rfl⟩
    have hm : x ∈ labelled symbols label (label x) := mem_labelled_iff.mpr ⟨hx, rfl⟩
    refine ⟨⟨label x, ?_, rfl⟩, by simpa using List.ne_nil_of_mem hm⟩
    exact List.mem_range.mpr (lt_clusterCount (List.mem_map.mpr ⟨x, hx, rfl⟩))

theorem labelled_mem_groups {x : String} (hx : x ∈ symbols) :
    labelled symbols label (label x) ∈ groups symbols (symbols.map label) :=
  mem_groups_iff.mpr ⟨x, hx, rfl⟩

theorem group_sublist {g : List String} (hg : g ∈ groups symbols (symbols.map label)) :
    g.Sublist symbols := by
  obtain ⟨x, -, rfl⟩ := mem_groups_iff.mp hg
  exact List.filter_sublist

theorem groups_disjoint : (groups symbols (symbols.map label)).Pairwise List.Disjoint := by
  rw [groups_map]
  refine List.Pairwise.filter _ (List.Pairwise.map (R := fun l m => l ≠ m) _ ?_ List.nodup_range)
  intro l m hlm x hl hm
  exact hlm ((mem_labelled_iff.mp hl).2.symm.trans (mem_labelled_iff.mp hm).2)

theorem flatten_groups_perm (hn : symbols.Nodup) :
    (groups symbols (symbols.map label)).flatten.Perm symbols := by
  have hf : (groups symbols (symbols.map label)).flatten.Nodup :=
    List.nodup_flatten.mpr ⟨fun g hg => hn.sublist (group_sublist hg), groups_disjoint⟩
  refine (List.perm_ext_iff_of_nodup hf hn).mpr fun x => ?_
  rw [List.mem_flatten]
  constructor
  · rintro ⟨g, hg, hx⟩
    exact (group_sublist hg).mem hx
  · exact fun hx => ⟨_, labelled_mem_groups hx, mem_labelled_iff.mpr ⟨hx, rfl⟩⟩

theorem length_groups_le :
    (groups symbols (symbols.map label)).length ≤ clusterCount (symbols.map label) := by
  rw [groups_map]
  exact Nat.le_trans (List.length_filter_le _ _) (by simp)

theorem ne_nil_of_mem_groups {g : List String} (hg : g ∈ groups symbols (symbols.map label)) :
    g ≠ [] := by
  obtain ⟨x, hx, rfl⟩ := mem_groups_iff.mp hg
  exact List.ne_nil_of_mem (mem_labelled_iff.mpr ⟨hx, rfl⟩)

theorem groups_nodup : (groups symbols (symbols.map label)).Nodup := by
  refine List.Pairwise.imp_of_mem ?_ groups_disjoint
  rintro g _ hg - hd rfl
  obtain ⟨x, hx⟩ := List.exists_mem_of_ne_nil g (ne_nil_of_mem_groups hg)
  exact hd hx hx

/-- A group is the group of its first symbol. -/
theorem group_eq_of_head {g : List String} (hg : g ∈ groups symbols (symbols.map label)) :
    g.headD "" ∈ symbols ∧ g = labelled symbols label (label (g.headD "")) := by
  have hhead : g.headD "" ∈ g := by
    cases g with
    | nil => exact absurd rfl (ne_nil_of_mem_groups hg)
    | cons x rest => exact List.mem_cons_self
  obtain ⟨x, -, rfl⟩ := mem_groups_iff.mp hg
  obtain ⟨hm, hl⟩ := mem_labelled_iff.mp hhead
  exact ⟨hm, by rw [hl]⟩

/-- Where a key decides the label, there are no more groups than keys. -/
theorem length_groups_le_card {γ : Type} [DecidableEq γ] (key : String → γ)
    (h : ∀ x ∈ symbols, ∀ y ∈ symbols, key x = key y → label x = label y) :
    (groups symbols (symbols.map label)).length ≤ (symbols.map key).toFinset.card := by
  rw [← List.toFinset_card_of_nodup (@groups_nodup symbols label)]
  refine Finset.card_le_card_of_injOn (fun g => key (g.headD "")) ?_ ?_
  · intro g hg
    have hm := (group_eq_of_head (List.mem_toFinset.mp hg)).1
    exact List.mem_toFinset.mpr (List.mem_map_of_mem hm)
  · intro g hg g' hg' he
    obtain ⟨hm, hgroup⟩ := group_eq_of_head (List.mem_toFinset.mp hg)
    obtain ⟨hm', hgroup'⟩ := group_eq_of_head (List.mem_toFinset.mp hg')
    rw [hgroup, hgroup', h _ hm _ hm' he]

/-- Symbols that all have one label make one group. -/
theorem length_groups_le_one (h : ∀ x ∈ symbols, ∀ y ∈ symbols, label x = label y) :
    (groups symbols (symbols.map label)).length ≤ 1 :=
  (length_groups_le_card (fun _ => ()) fun x hx y hy _ => h x hx y hy).trans
    (Finset.card_le_one_of_subsingleton _)

end Labelled

end BuildAdvisor.Split
