import BuildAdvisor.Proofs.Template.Nesting
import Mathlib.Data.List.TakeDrop

/-!
Normal names of templates, argument by argument.

* `HasList` — the first argument list of a text, with what stands before and behind it;
* `exists_hasList` — nested text with a `<` has one, and `HasList.argumentList?_eq` says that it is
  the one that is generalized;
* `HasList.normalizeChars_eq`, `normalizeChars_of_not_mem` — the normal name in both cases;
* `HasList.compact_map` — compact text remains compact under a change of its arguments that keeps
  them compact;
* `normalizeChars_normalizeChars` — a normal name is its own normal name;
* `Alike` — arguments that a normal name does not tell apart.

The arguments are found as long as the brackets open in the list are fewer than their count tells
from none.
-/

set_option autoImplicit false

namespace BuildAdvisor.Template

/-- `before` ends at the first `<`, and `arguments` are all that stands up to its `>`. -/
structure HasList (text before : List Char) (arguments : List (List Char)) (after : List Char) :
    Prop where
  text_eq : text = before ++ '<' :: joinArguments arguments ++ '>' :: after
  first : '<' ∉ before
  ne_nil : arguments ≠ []
  isArgument : ∀ a ∈ arguments, IsArgument a

/-! ## Finding the list -/

theorem exists_hasList {text : List Char} (h : Nested text) (hm : '<' ∈ text) :
    ∃ before arguments after, HasList text before arguments after := by
  obtain ⟨before, inner, after, htext, hbefore, hinner⟩ := exists_list h hm
  obtain ⟨a, rest, rfl, hargs⟩ := exists_arguments hinner
  exact ⟨before, a :: rest, after, htext, hbefore, List.cons_ne_nil a rest, hargs⟩

theorem span_of_not_mem {text : List Char} (h : '<' ∉ text) :
    text.span (· != '<') = (text, []) := by
  have hall : ∀ c ∈ text, (c != '<') = true := fun c hc => by
    simpa using fun he : c = '<' => h (he ▸ hc)
  rw [List.span_eq_takeWhile_dropWhile, List.takeWhile_eq_self_iff.mpr hall,
    List.dropWhile_eq_nil_iff.mpr hall]

theorem span_append_cons {before : List Char} (h : '<' ∉ before) (rest : List Char) :
    (before ++ '<' :: rest).span (· != '<') = (before, '<' :: rest) := by
  have hbefore : ∀ c ∈ before, (c != '<') = true := fun c hc => by
    simpa using fun he : c = '<' => h (he ▸ hc)
  rw [List.span_eq_takeWhile_dropWhile, List.takeWhile_append_of_pos hbefore,
    List.dropWhile_append_of_pos hbefore, List.takeWhile_cons_of_neg (by decide),
    List.dropWhile_cons_of_neg (by decide), List.append_nil]

theorem argumentList?_of_not_mem {text : List Char} (h : '<' ∉ text) :
    argumentList? text = none := by
  rw [argumentList?, span_of_not_mem h]

theorem argumentList?_append_cons {before : List Char} (h : '<' ∉ before) (rest : List Char) :
    argumentList? (before ++ '<' :: rest) =
      (closeList? 0 [] rest).map fun l => ⟨before, l.1, l.2⟩ := by
  rw [argumentList?, span_append_cons h]

section List

variable {text before after : List Char} {arguments : List (List Char)}

theorem HasList.argumentList?_eq (h : HasList text before arguments after) :
    argumentList? text = some ⟨before, joinArguments arguments, after⟩ := by
  have hclose : closeList? 0 [] (joinArguments arguments ++ '>' :: after) =
      some (joinArguments arguments, after) := by
    rw [closeList?_nested (nested_joinArguments h.isArgument), List.append_nil, closeList?,
      if_pos rfl, List.reverse_reverse]
  rw [h.text_eq, List.append_assoc, List.cons_append, argumentList?_append_cons h.first, hclose,
    Option.map_some]

theorem HasList.splitArguments_eq (h : HasList text before arguments after)
    (hpeak : peak (joinArguments arguments) < UInt32.size) :
    splitArguments (joinArguments arguments) = arguments := by
  obtain ⟨a, rest, rfl⟩ := List.exists_cons_of_ne_nil h.ne_nil
  exact splitArguments_joinArguments h.isArgument hpeak

/-- The `<` before the list is open as well, beside what stands open before it. -/
theorem HasList.peak_lt (h : HasList text before arguments after) (hn : Nested text) :
    peak (joinArguments arguments) < peak text := by
  have htrough := hn.trough_eq
  rw [h.text_eq, List.append_assoc, trough_append] at htrough
  have hbefore := trough_le_balance before
  rw [h.text_eq, List.append_assoc, peak_append, List.cons_append, peak, peak_append,
    show nesting '<' = 1 from rfl]
  omega

theorem HasList.map (h : HasList text before arguments after) {f : List Char → List Char}
    (hf : ∀ a, IsArgument a → IsArgument (f a)) :
    HasList (before ++ '<' :: joinArguments (arguments.map f) ++ '>' :: after) before
      (arguments.map f) after where
  text_eq := rfl
  first := h.first
  ne_nil := by simpa using h.ne_nil
  isArgument := by
    intro b hb
    obtain ⟨a, ha, rfl⟩ := List.mem_map.mp hb
    exact hf a (h.isArgument a ha)

end List

/-! ## Generalized arguments -/

theorem generalize_eq (a : List Char) :
    generalize a = if "std::".toList <+: a then a else ['T'] := by
  simp only [generalize, isStandardArgument, standardNamespace, List.isPrefixOf_iff_prefix]
  rfl

theorem isArgument_generalize (a : List Char) (h : IsArgument a) : IsArgument (generalize a) := by
  rw [generalize]
  split
  next => exact h
  next => exact .plain (by decide) (by decide) .nil

theorem peak_generalize_le (a : List Char) : peak (generalize a) ≤ peak a := by
  rw [generalize]
  split
  next => exact Int.le_refl _
  next => exact peak_nonneg a

theorem peak_joinArguments_generalize_le {arguments : List (List Char)}
    (h : ∀ a ∈ arguments, IsArgument a) :
    peak (joinArguments (arguments.map generalize)) ≤ peak (joinArguments arguments) := by
  induction arguments with
  | nil => exact Int.le_refl _
  | cons a rest ih =>
    obtain ⟨ha, hrest⟩ := List.forall_mem_cons.mp h
    have hle := peak_generalize_le a
    cases rest with
    | nil => rwa [List.map_cons, List.map_nil, joinArguments_singleton, joinArguments_singleton]
    | cons b rest =>
      have hjoin := ih hrest
      rw [List.map_cons] at hjoin
      rw [List.map_cons, List.map_cons, peak_joinArguments_cons_cons (isArgument_generalize a ha),
        peak_joinArguments_cons_cons ha]
      omega

theorem generalize_generalize (a : List Char) : generalize (generalize a) = generalize a := by
  by_cases h : isStandardArgument a = true
  · have ha : generalize a = a := by rw [generalize, if_pos h]
    rw [ha, ha]
  · have ha : generalize a = placeholder := by rw [generalize, if_neg h]
    rw [ha]
    decide

theorem generalize_ne_nil (a : List Char) : generalize a ≠ [] := by
  rw [generalize]
  split
  next h =>
    rintro rfl
    exact absurd h (by decide)
  next => exact List.cons_ne_nil _ _

theorem compact_generalize {a : List Char} (h : compact a = a) :
    compact (generalize a) = generalize a := by
  rw [generalize]
  split
  next => exact h
  next => decide

theorem joinArguments_generalize_ne_nil {arguments : List (List Char)} (h : arguments ≠ []) :
    joinArguments (arguments.map generalize) ≠ [] := by
  obtain ⟨a, rest, rfl⟩ := List.exists_cons_of_ne_nil h
  intro hnil
  rw [List.map_cons, ← List.append_nil (generalize a), joinArguments_cons_append,
    List.append_eq_nil_iff] at hnil
  exact generalize_ne_nil a hnil.1

/-! ## Compact text -/

theorem compact_joinArguments_eq_self_iff {arguments : List (List Char)} (h : arguments ≠ []) :
    compact (joinArguments arguments) = joinArguments arguments ↔
      ∀ a ∈ arguments, compact a = a := by
  obtain ⟨a, rest, rfl⟩ := List.exists_cons_of_ne_nil h
  induction rest generalizing a with
  | nil => simp [joinArguments_singleton]
  | cons b rest ih =>
    rw [joinArguments_cons_cons, compact_append_cons_eq_self_iff (by decide),
      ih b (List.cons_ne_nil b rest)]
    exact (List.forall_mem_cons (p := fun a => compact a = a)).symm

theorem HasList.compact_iff {text before after : List Char} {arguments : List (List Char)}
    (h : HasList text before arguments after) :
    compact text = text ↔
      (compact before = before ∧ ∀ a ∈ arguments, compact a = a) ∧ compact after = after := by
  rw [h.text_eq, compact_append_cons_eq_self_iff (by decide),
    compact_append_cons_eq_self_iff (by decide), compact_joinArguments_eq_self_iff h.ne_nil]

theorem HasList.compact_map {text before after : List Char} {arguments : List (List Char)}
    (h : HasList text before arguments after) (hc : compact text = text) :
    compact (before ++ '<' :: joinArguments (arguments.map generalize) ++ '>' :: after) =
      before ++ '<' :: joinArguments (arguments.map generalize) ++ '>' :: after := by
  obtain ⟨⟨hbefore, hargs⟩, hafter⟩ := h.compact_iff.mp hc
  refine (h.map isArgument_generalize).compact_iff.mpr ⟨⟨hbefore, ?_⟩, hafter⟩
  intro b hb
  obtain ⟨a, ha, rfl⟩ := List.mem_map.mp hb
  exact compact_generalize (hargs a ha)

/-! ## Normal names -/

section Names

variable {name before after : List Char} {arguments : List (List Char)}

theorem normalizeChars_compact (name : List Char) :
    normalizeChars (compact name) = normalizeChars name := by
  unfold normalizeChars
  rw [compact_compact]

theorem normalize_eq_ofList (name : String) :
    normalize name = String.ofList (normalizeChars name.toList) := rfl

theorem normalizeChars_of_not_mem (h : '<' ∉ compact name) :
    normalizeChars name = compact name := by
  simp only [normalizeChars, argumentList?_of_not_mem h]

theorem HasList.normalizeChars_of_empty (h : HasList (compact name) before arguments after)
    (hempty : joinArguments arguments = []) : normalizeChars name = compact name := by
  simp only [normalizeChars, h.argumentList?_eq, hempty, List.isEmpty_nil, if_true]

theorem HasList.normalizeChars_eq (h : HasList (compact name) before arguments after)
    (hpeak : peak (joinArguments arguments) < UInt32.size) (hne : joinArguments arguments ≠ []) :
    normalizeChars name =
      before ++ '<' :: joinArguments (arguments.map generalize) ++ '>' :: after := by
  have hinner : ¬ (joinArguments arguments).isEmpty = true := by simpa using hne
  simp only [normalizeChars, h.argumentList?_eq, if_neg hinner, h.splitArguments_eq hpeak]

/-- The list of a normal name is the generalized one, which generalizing leaves as it is. -/
theorem HasList.normalizeChars_normalizeChars (h : HasList (compact name) before arguments after)
    (hpeak : peak (joinArguments arguments) < UInt32.size) (hne : joinArguments arguments ≠ []) :
    normalizeChars (normalizeChars name) = normalizeChars name := by
  have hcompact := h.compact_map (compact_compact name)
  have hlist := h.map isArgument_generalize
  have hle := peak_joinArguments_generalize_le h.isArgument
  rw [← hcompact] at hlist
  rw [h.normalizeChars_eq hpeak hne,
    hlist.normalizeChars_eq (by omega) (joinArguments_generalize_ne_nil h.ne_nil), List.map_map]
  congr 4
  exact List.map_congr_left fun a _ => generalize_generalize a

theorem HasList.peak_lt_of_peak_le (h : HasList (compact name) before arguments after)
    (hn : Nested name) {n : Int} (hpeak : peak name ≤ n) : peak (joinArguments arguments) < n := by
  have hlt := h.peak_lt (nested_compact hn)
  rw [peak_compact] at hlt
  omega

theorem normalizeChars_normalizeChars (h : Nested name) (hpeak : peak name ≤ UInt32.size) :
    normalizeChars (normalizeChars name) = normalizeChars name := by
  by_cases hm : '<' ∈ compact name
  · obtain ⟨before, arguments, after, hlist⟩ := exists_hasList (nested_compact h) hm
    by_cases hempty : joinArguments arguments = []
    · rw [hlist.normalizeChars_of_empty hempty, normalizeChars_compact,
        hlist.normalizeChars_of_empty hempty]
    · exact hlist.normalizeChars_normalizeChars (hlist.peak_lt_of_peak_le h hpeak) hempty
  · rw [normalizeChars_of_not_mem hm, normalizeChars_compact, normalizeChars_of_not_mem hm]

end Names

/-- Two arguments that a normal name does not tell apart. -/
def Alike (a b : List Char) : Prop :=
  a = b ∨ ¬ "std::".toList <+: a ∧ ¬ "std::".toList <+: b

theorem Alike.generalize_eq {a b : List Char} (h : Alike a b) : generalize a = generalize b := by
  rcases h with rfl | ⟨ha, hb⟩
  · rfl
  · rw [Template.generalize_eq, Template.generalize_eq, if_neg ha, if_neg hb]

theorem map_generalize_eq {as bs : List (List Char)} (h : List.Forall₂ Alike as bs) :
    as.map generalize = bs.map generalize := by
  induction h with
  | nil => rfl
  | cons hab _ ih => rw [List.map_cons, List.map_cons, hab.generalize_eq, ih]

end BuildAdvisor.Template
