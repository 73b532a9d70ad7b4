import BuildAdvisor.Proofs.Checked.TemplateName

/-!
How deep the brackets of a name may nest.

* `listFits_of_peak_le` — nested names of which no more brackets are open than a tested count of 32
  bits reaches, the `<` of the list among them;
* `normalize_nested` — normalization rewrites the arguments of the first list one by one, and a
  normal name is its own normal name, of nested names whose open brackets can be counted;
* `deepCall` — names of one argument, with a comma within brackets of any depth;
* `deepCall_miscounted` — where a count cannot hold the depth, it takes the comma for one that
  stands outside of brackets, or stops.
-/

set_option autoImplicit false

namespace BuildAdvisor.Template

open Checked (ListFits bracketLimit normalName normalName_eq normalName_overflow)
open String (utf8Len)

theorem listFits_of_peak_le {name : List Char} (h : Nested name) (hpeak : peak name ≤ bracketLimit) :
    ListFits name := by
  intro l hl
  by_cases hm : '<' ∈ compact name
  · obtain ⟨before, arguments, after, hlist⟩ := exists_hasList (nested_compact h) hm
    rw [hlist.argumentList?_eq] at hl
    obtain rfl := Option.some.inj hl
    have htrough := (nested_joinArguments hlist.isArgument).trough_eq
    have hlt := hlist.peak_lt_of_peak_le h hpeak
    refine ⟨?_, by rwa [Int.zero_add]⟩
    rw [htrough]
    decide
  · rw [argumentList?_of_not_mem hm] at hl
    cases hl

/-- A nested name without an argument list, or whose first list is empty, is only compacted.
Otherwise the first list keeps its number of arguments and its place in the compact name: those
from the standard library stay and the others become `T`, so that names which differ in the others
only have one normal name.  A normal name is normal.

This takes names of which never more than 2³² brackets are open: a count of 32 bits that wraps
around tells fewer within a list from none.  Where the count is tested, it takes that never more
than 2³¹ are open. -/
theorem normalize_nested (name : String) (h : Nested name.toList)
    (hpeak : peak name.toList ≤ UInt32.size) :
    let text := compact name.toList
    ('<' ∉ text → normalize name = String.ofList text) ∧
    ('<' ∈ text → ∃ before arguments after, HasList text before arguments after) ∧
    (∀ before arguments after, HasList text before arguments after →
      if joinArguments arguments = [] then normalize name = String.ofList text
      else HasList (normalize name).toList before
        (arguments.map fun a => if "std::".toList <+: a then a else ['T']) after) ∧
    (∀ (other : String) before arguments others after, Nested other.toList →
      peak other.toList ≤ UInt32.size →
      HasList text before arguments after → joinArguments arguments ≠ [] →
      HasList (compact other.toList) before others after → joinArguments others ≠ [] →
      List.Forall₂ Alike arguments others → normalize other = normalize name) ∧
    normalize (normalize name) = normalize name ∧
    (peak name.toList ≤ bracketLimit → name.utf8ByteSize < UInt64.size → ∀ overflow,
      normalName overflow UInt64.size name = pure (normalize name)) := by
  intro text
  have hchars : (normalize name).toList = normalizeChars name.toList := by
    rw [normalize_eq_ofList, String.toList_ofList]
  refine ⟨?_, exists_hasList (nested_compact h), ?_, ?_, ?_, ?_⟩
  · intro hm
    rw [normalize_eq_ofList, normalizeChars_of_not_mem hm]
  · intro before arguments after hlist
    split
    next hempty => rw [normalize_eq_ofList, hlist.normalizeChars_of_empty hempty]
    next hne =>
      have hrule : generalize = fun a => if "std::".toList <+: a then a else ['T'] :=
        funext generalize_eq
      rw [hchars, hlist.normalizeChars_eq (hlist.peak_lt_of_peak_le h hpeak) hne, ← hrule]
      exact hlist.map isArgument_generalize
  · intro other before arguments others after h' hpeak' hlist hne hlist' hne' halike
    rw [normalize_eq_ofList, normalize_eq_ofList,
      hlist.normalizeChars_eq (hlist.peak_lt_of_peak_le h hpeak) hne,
      hlist'.normalizeChars_eq (hlist'.peak_lt_of_peak_le h' hpeak') hne', map_generalize_eq halike]
  · rw [normalize_eq_ofList (normalize name), hchars, normalizeChars_normalizeChars h hpeak,
      ← normalize_eq_ofList]
  · intro hlow hsize overflow
    exact normalName_eq hsize (.inr (listFits_of_peak_le h hlow))

/-- An argument with a list of its own, one with commas in brackets, and a suffix. -/
def nodeMap : String := "Map< std::less<int> , Node(a,b)[c] >::iterator "

theorem isArgument_of_split {arguments : List (List Char)}
    (h : ∀ a ∈ arguments, peak a < UInt32.size ∧ Nested a ∧ splitArguments a = [a]) :
    ∀ a ∈ arguments, IsArgument a := fun a ha =>
  (isArgument_iff (h a ha).1).mpr (h a ha).2

theorem nodeMap_list : HasList (compact nodeMap.toList) "Map".toList
    ["std::less<int>".toList, "Node(a,b)[c]".toList] "::iterator".toList where
  text_eq := by decide +kernel
  first := by decide
  ne_nil := by decide
  isArgument := isArgument_of_split (by decide +kernel)

theorem leafMap_list : HasList (compact "Map<std::less<int>,Leaf<x,y>>::iterator".toList)
    "Map".toList ["std::less<int>".toList, "Leaf<x,y>".toList] "::iterator".toList where
  text_eq := by decide +kernel
  first := by decide
  ne_nil := by decide
  isArgument := isArgument_of_split (by decide +kernel)

theorem nodeMap_normal :
    Nested nodeMap.toList ∧ peak nodeMap.toList = 2 ∧
      HasList (normalize nodeMap).toList "Map".toList ["std::less<int>".toList, "T".toList]
        "::iterator".toList ∧
      normalize "Map<std::less<int>,Leaf<x,y>>::iterator" = normalize nodeMap ∧
      normalize (normalize nodeMap) = normalize nodeMap ∧
      normalName .fault UInt64.size nodeMap = pure (normalize nodeMap) := by
  have hnested : Nested nodeMap.toList := by decide +kernel
  have hpeak : peak nodeMap.toList = 2 := by decide +kernel
  obtain ⟨-, -, hrewritten, halike, hagain, hcounted⟩ :=
    normalize_nested nodeMap hnested (by rw [hpeak]; decide)
  refine ⟨hnested, hpeak, ?_, ?_, hagain, hcounted (by rw [hpeak]; decide) (by decide) .fault⟩
  · have h := hrewritten _ _ _ nodeMap_list
    rw [if_neg (by decide)] at h
    exact h
  · refine halike _ _ _ _ _ (by decide +kernel) (by decide +kernel) nodeMap_list (by decide)
      leafMap_list (by decide) ?_
    exact .cons (.inl rfl) (.cons (.inr (by decide)) .nil)

/-! ## Names that are too deep -/

section Deep

/-- One argument, since its comma stands within brackets. -/
def deepArgument (depth : Nat) : List Char :=
  List.replicate depth '(' ++ ',' :: List.replicate depth ')'

def deepCall (depth : Nat) : String :=
  String.ofList ('f' :: '<' :: (deepArgument depth ++ ['>']))

theorem deepArgument_succ (depth : Nat) :
    deepArgument (depth + 1) = '(' :: deepArgument depth ++ [')'] := by
  rw [deepArgument, deepArgument, List.replicate_succ, List.replicate_succ']
  simp

theorem nested_deepArgument (depth : Nat) : Nested (deepArgument depth) := by
  induction depth with
  | zero => decide
  | succ depth ih =>
    rw [deepArgument_succ]
    exact .bracket rfl ih .nil

theorem isArgument_deepArgument (depth : Nat) : IsArgument (deepArgument (depth + 1)) := by
  rw [deepArgument_succ]
  exact .bracket rfl (nested_deepArgument depth) .nil

theorem peak_deepArgument (depth : Nat) : peak (deepArgument depth) = depth := by
  induction depth with
  | zero => decide
  | succ depth ih =>
    rw [deepArgument_succ, List.cons_append, peak, peak_append, ih,
      (nested_deepArgument depth).balance_eq, show nesting '(' = 1 from rfl,
      show peak [')'] = 0 from rfl]
    omega

theorem compact_deepCall (depth : Nat) :
    compact (deepCall depth).toList = 'f' :: '<' :: (deepArgument depth ++ ['>']) := by
  rw [deepCall, String.toList_ofList]
  refine compact_of_not_isBlank fun c hc => ?_
  simp only [deepArgument, List.mem_cons, List.mem_append, List.mem_replicate, List.not_mem_nil,
    or_false] at hc
  rcases hc with rfl | rfl | (⟨-, rfl⟩ | rfl | ⟨-, rfl⟩) | rfl <;> decide

theorem deepCall_list (depth : Nat) :
    HasList (compact (deepCall (depth + 1)).toList) ['f'] [deepArgument (depth + 1)] [] where
  text_eq := by
    rw [compact_deepCall, joinArguments_singleton]
    rfl
  first := by decide
  ne_nil := List.cons_ne_nil _ _
  isArgument := by
    intro a ha
    rw [List.mem_singleton.mp ha]
    exact isArgument_deepArgument depth

theorem nested_deepCall (depth : Nat) : Nested (deepCall depth).toList := by
  rw [deepCall, String.toList_ofList]
  exact .plain rfl (.bracket rfl (nested_deepArgument depth) .nil)

theorem splitFrom_of_not_mem {rest : List Char} (h : ',' ∉ rest) (depth : Int32)
    (piece : List Char) : splitFrom depth piece rest = [piece.reverse ++ rest] := by
  induction rest generalizing depth piece with
  | nil => rw [splitFrom, List.append_nil]
  | cons c rest ih =>
    obtain ⟨hc, hrest⟩ := not_or.mp (List.mem_cons.not.mp h)
    rw [splitFrom, if_neg fun hcomma => hc hcomma.1.symm, ih hrest]
    simp

theorem splitFrom_replicate (n : Nat) (depth : Int) (piece rest : List Char) :
    splitFrom (Int32.ofInt depth) piece (List.replicate n '(' ++ rest) =
      splitFrom (Int32.ofInt (depth + n)) (List.replicate n '(' ++ piece) rest := by
  induction n generalizing depth piece with
  | zero => simp
  | succ n ih =>
    rw [List.replicate_succ, List.cons_append, splitFrom, if_neg fun h => absurd h.1 (by decide),
      ← Int32.ofInt_add, show nesting '(' = 1 from rfl, ih]
    rw [← List.replicate_succ, List.replicate_succ', Nat.cast_succ, Int.add_assoc, Int.add_comm 1]
    simp

/-- Brackets of which the count sees none split the argument at its comma. -/
theorem splitArguments_deepArgument {depth : Nat} (h : Int32.ofInt depth = 0) :
    splitArguments (deepArgument depth) =
      [List.replicate depth '(', List.replicate depth ')'] := by
  have hopen := splitFrom_replicate depth 0 [] (',' :: List.replicate depth ')')
  have hnone : ',' ∉ List.replicate depth ')' := fun hm =>
    absurd (List.eq_of_mem_replicate hm) (by decide)
  rw [Int.zero_add, h] at hopen
  rw [splitArguments, deepArgument]
  refine hopen.trans ?_
  rw [splitFrom, if_pos ⟨rfl, rfl⟩, splitFrom_of_not_mem hnone]
  simp

theorem normalize_deepCall {depth : Nat} (h : Int32.ofInt (depth + 1) = 0) :
    normalize (deepCall (depth + 1)) = "f<T,T>" := by
  have hplain : ∀ c : Char, c ≠ 's' → ∀ text, generalize (c :: text) = ['T'] := by
    intro c hc text
    rw [generalize_eq, if_neg]
    intro hstd
    exact hc (List.cons_prefix_cons.mp hstd).1.symm
  have hne : ¬ (deepArgument (depth + 1)).isEmpty = true := by
    rw [deepArgument_succ]
    exact Bool.false_ne_true
  have hlist := (deepCall_list depth).argumentList?_eq
  rw [joinArguments_singleton] at hlist
  rw [normalize_eq_ofList]
  simp only [normalizeChars, hlist, if_neg hne, splitArguments_deepArgument h, List.map_cons,
    List.map_nil, List.replicate_succ, hplain '(' (by decide), hplain ')' (by decide)]
  rfl

theorem not_listFits_deepCall {depth : Nat} (h : bracketLimit ≤ depth) :
    ¬ ListFits (deepCall depth).toList := by
  have hpos : 0 < bracketLimit := by decide
  obtain ⟨depth, rfl⟩ := Nat.exists_eq_add_one.mpr (hpos.trans_le h)
  intro hfits
  have hlist := (deepCall_list depth).argumentList?_eq
  rw [joinArguments_singleton] at hlist
  have hpeak : 0 + peak (deepArgument (depth + 1)) < bracketLimit := (hfits _ hlist).2
  rw [peak_deepArgument] at hpeak
  omega

theorem utf8ByteSize_deepCall (depth : Nat) : (deepCall depth).utf8ByteSize = 2 * depth + 4 := by
  have hreplicate : ∀ c : Char, c.utf8Size = 1 → utf8Len (List.replicate depth c) = depth := by
    intro c hc
    induction depth with
    | zero => rfl
    | succ depth ih => rw [List.replicate_succ, String.utf8Len_cons, ih, hc]
  rw [deepCall, String.utf8ByteSize_ofList, deepArgument]
  simp only [String.utf8Len_cons, String.utf8Len_append, hreplicate '(' rfl, hreplicate ')' rfl,
    String.utf8Len_nil, show ','.utf8Size = 1 from rfl, show '<'.utf8Size = 1 from rfl,
    show '>'.utf8Size = 1 from rfl, show 'f'.utf8Size = 1 from rfl]
  omega

theorem deepCall_miscounted :
    Nested (deepCall UInt32.size).toList ∧
      HasList (compact (deepCall UInt32.size).toList) ['f'] [deepArgument UInt32.size] [] ∧
      normalize (deepCall UInt32.size) = "f<T,T>" ∧
      ¬ HasList (normalize (deepCall UInt32.size)).toList ['f']
        ([deepArgument UInt32.size].map fun a => if "std::".toList <+: a then a else ['T']) [] ∧
      normalName .fault UInt64.size (deepCall bracketLimit) = .error .overflow := by
  have hsize : UInt32.size = 4294967295 + 1 := rfl
  have hnormal : normalize (deepCall UInt32.size) = "f<T,T>" := by
    rw [hsize]
    exact normalize_deepCall (by decide)
  refine ⟨nested_deepCall _, ?_, hnormal, ?_, ?_⟩
  · rw [hsize]
    exact deepCall_list _
  · rw [hnormal, hsize, deepArgument_succ, List.map_singleton, if_neg (by simp)]
    intro hlist
    exact absurd hlist.text_eq (by decide)
  · refine normalName_overflow ?_ (not_listFits_deepCall le_rfl)
    rw [utf8ByteSize_deepCall]
    decide

end Deep

end BuildAdvisor.Template
