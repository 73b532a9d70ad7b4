import BuildAdvisor.Data.Decode

/-!
Reading back what was written.

* `double?_ofDouble`, `natural?_ofNat` — numbers;
* `list?_ofList`, `texts?_strings` — lists;
* `map?_record` — tables, in whatever order their entries are written;
* `exists_namedFields`, `read_record` — the fields of a record are its members.
-/

set_option autoImplicit false

namespace BuildAdvisor.Data.Value

/-! ## Numbers -/

theorem double?_ofDouble {x : Float} (h : x.isFinite = true) : double? (ofDouble x) = some x := by
  unfold ofDouble
  rw [if_pos h]
  rfl

theorem natural?_ofNat {bits n : Nat} (h : n < Nat.pow 2 bits) :
    natural? bits (ofNat n) = some n :=
  if_pos h

/-! ## Lists -/

theorem list?_ofList {α : Type} {item? : Value → Option α} {write : α → Value} {xs : List α}
    (h : ∀ x ∈ xs, item? (write x) = some x) : list? item? (ofList write xs) = some xs := by
  change (xs.map write).mapM item? = some xs
  induction xs with
  | nil => rfl
  | cons x rest ih =>
    rw [List.map_cons, List.mapM_cons, h x List.mem_cons_self,
      ih fun y hy => h y (List.mem_cons_of_mem x hy)]
    rfl

@[simp] theorem texts?_strings (xs : List String) : texts? (strings xs) = some xs :=
  list?_ofList fun _ _ => rfl

/-! ## Tables -/

section Tables

variable {α : Type}

theorem foldl_insert_eq_ofList (entries : List (String × α)) :
    entries.foldl (fun table p => table.insert p.1 p.2) (∅ : Table α) =
      Std.ExtTreeMap.ofList entries := by
  rw [Std.ExtTreeMap.ofList_eq_insertMany_empty]
  generalize (∅ : Table α) = start
  induction entries generalizing start with
  | nil => rfl
  | cons p rest ih =>
    rw [List.foldl_cons, ih, Std.ExtTreeMap.insertMany_cons]

/-- Keys are distinct in every order of the entries, so no insertion overwrites another. -/
theorem ofList_of_perm {entries : List (String × α)} {t : Table α} (h : entries.Perm t.toList) :
    Std.ExtTreeMap.ofList entries = t := by
  have hdistinct : entries.Pairwise fun p q => ¬ compare p.1 q.1 = .eq := by
    refine (h.pairwise_iff ?_).mpr Std.ExtTreeMap.distinct_keys_toList
    intro p q hpq he
    exact hpq (Std.OrientedCmp.eq_symm he)
  apply Std.ExtTreeMap.ext_getElem?
  intro k
  cases hk : t[k]? with
  | some v =>
    have hm : (k, v) ∈ entries :=
      h.mem_iff.mpr (Std.ExtTreeMap.mem_toList_iff_getElem?_eq_some.mpr hk)
    exact Std.ExtTreeMap.getElem?_ofList_of_mem Std.ReflCmp.compare_self hdistinct hm
  | none =>
    apply Std.ExtTreeMap.getElem?_ofList_of_contains_eq_false
    rw [Bool.eq_false_iff]
    intro hc
    obtain ⟨⟨k', v⟩, hm, he⟩ := List.mem_map.mp (List.contains_iff_mem.mp hc)
    obtain rfl : k' = k := he
    have hv := Std.ExtTreeMap.mem_toList_iff_getElem?_eq_some.mp (h.mem_iff.mp hm)
    rw [hk] at hv
    cases hv

theorem foldlM_insert {item? : Value → Option α} {write : α → Value}
    {entries : List (String × α)} (hitem : ∀ p ∈ entries, item? (write p.2) = some p.2)
    (start : Table α) :
    ((entries.map fun p => (p.1, write p.2)).map fun p => (some p.1, p.2)).foldlM
      (fun table p => do
        let key ← p.1
        let item ← item? p.2
        some (table.insert key item)) start =
    some (entries.foldl (fun table p => table.insert p.1 p.2) start) := by
  induction entries generalizing start with
  | nil => rfl
  | cons p rest ih =>
    rw [List.map_cons, List.map_cons, List.foldlM_cons, hitem p List.mem_cons_self]
    exact ih (fun q hq => hitem q (List.mem_cons_of_mem p hq)) _

theorem map?_record {item? : Value → Option α} {write : α → Value}
    {entries : List (String × α)} {t : Table α} (h : entries.Perm t.toList)
    (hitem : ∀ p ∈ entries, item? (write p.2) = some p.2) :
    map? item? (record (entries.map fun p => (p.1, write p.2))) = some t := by
  have hfold := foldlM_insert hitem ∅
  rw [foldl_insert_eq_ofList, ofList_of_perm h] at hfold
  exact hfold

end Tables

/-! ## Records -/

section Records

variable {names : List String} {members : List (String × Value)}

theorem lookup_of_mem (hnodup : (members.map Prod.fst).Nodup) {p : String × Value}
    (hp : p ∈ members) : members.lookup p.1 = some p.2 := by
  induction members with
  | nil => cases hp
  | cons q rest ih =>
    obtain ⟨hq, hrest⟩ := List.nodup_cons.mp hnodup
    rcases List.mem_cons.mp hp with rfl | hp
    · rw [List.lookup_cons_self]
    · have hne : p.1 ≠ q.1 := fun he => hq (he ▸ List.mem_map_of_mem hp)
      rw [List.lookup_cons, beq_eq_false_iff_ne.mpr hne]
      exact ih hrest hp

theorem mapM_members (members : List (String × Value)) :
    (members.map fun p => (some p.1, p.2)).mapM
      (fun p : Option String × Value => p.1.map (·, p.2)) = some members := by
  induction members with
  | nil => rfl
  | cons p rest ih =>
    rw [List.map_cons, List.mapM_cons, ih]
    rfl

theorem exists_namedFields (hnames : members.map Prod.fst = names) (hnodup : names.Nodup) :
    ∃ f : Fields, (record members).namedFields? names = some f ∧
      ∀ p ∈ members, f.get p.1 = some p.2 := by
  have hknown : members.filter (fun p => names.contains p.1) = members := by
    rw [List.filter_eq_self]
    intro p hp
    rw [List.contains_iff_mem, ← hnames]
    exact List.mem_map_of_mem hp
  refine ⟨⟨fun name => members.lookup name⟩, ?_, fun p hp => lookup_of_mem (hnames ▸ hnodup) hp⟩
  change ((members.map fun p => (some p.1, p.2)).mapM
    (fun p : Option String × Value => p.1.map (·, p.2)) >>= fun keyed => _) = _
  rw [mapM_members]
  change (if ((members.filter fun p => names.contains p.1).map Prod.fst).Nodup then _ else none) = _
  rw [hknown, hnames, if_pos hnodup]

/-- A reader of fields may be run on any fields that hold the members of the record. -/
theorem read_record {α : Type} {read : Fields → Option α} {x : α}
    (hnames : members.map Prod.fst = names) (hnodup : names.Nodup)
    (h : ∀ f : Fields, (∀ p ∈ members, f.get p.1 = some p.2) → read f = some x) :
    ((record members).fields? names >>= read) = some x := by
  obtain ⟨f, hf, hget⟩ := exists_namedFields hnames hnodup
  have hfields : (record members).fields? names = some f := hf
  rw [hfields]
  exact h f hget

end Records

end BuildAdvisor.Data.Value
