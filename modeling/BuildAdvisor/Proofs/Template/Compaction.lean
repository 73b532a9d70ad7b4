import BuildAdvisor.Template.Name
import Mathlib.Data.List.DropRight
import Mathlib.Data.List.Induction

/-!
Compaction piece by piece.

* `dropWhile_append_cons`, `rdropWhile_append_cons` — no blank is dropped beyond a character that
  is not blank; `rdropWhile_cons`, `trim_trim` — blanks at the end, and at both ends;
* `compactFrom_behind` — the pass never takes back what stands before punctuation;
* `compact_append_cons`, `compact_plain` — punctuation cuts a name into pieces, each of which is
  compacted on its own, and a piece is trimmed;
* `pieces_induction` — what is proved of pieces and kept by punctuation holds of every text;
* `compact_compact`, `compact_sublist`, `filter_compact` — compaction is idempotent, and takes away
  blanks only, so that a text without them is compact (`compact_of_not_isBlank`);
* `compact_append_cons_eq_self_iff` — the pieces of a compact text are compact.
-/

set_option autoImplicit false

namespace BuildAdvisor.Template

open BuildAdvisor.Text (isBlank trim trimStart)

/-! ## Blanks at the ends -/

section Blanks

variable {c : Char}

theorem not_isBlank_of_head_dropWhile {text : List Char}
    (h : c ∈ (text.dropWhile isBlank).head?) : isBlank c = false := by
  have hnot := List.head?_dropWhile_not isBlank text
  rw [Option.mem_def.mp h] at hnot
  simpa using hnot

theorem dropWhile_append_cons (hc : isBlank c = false) (u v : List Char) :
    (u ++ c :: v).dropWhile isBlank = u.dropWhile isBlank ++ c :: v := by
  rw [List.dropWhile_append]
  split
  next h => rw [List.isEmpty_iff.mp h, List.dropWhile_cons_of_neg (by simp [hc]), List.nil_append]
  next => rfl

theorem rdropWhile_append_cons (hc : isBlank c = false) (u v : List Char) :
    (u ++ c :: v).rdropWhile isBlank = u ++ c :: v.rdropWhile isBlank := by
  have h := dropWhile_append_cons hc v.reverse u.reverse
  simp only [List.rdropWhile, List.reverse_append, List.reverse_cons, List.append_assoc,
    List.singleton_append, h]
  simp

theorem rdropWhile_cons (hc : isBlank c = true) (u : List Char) :
    (c :: u).rdropWhile isBlank = if u.all isBlank then [] else c :: u.rdropWhile isBlank := by
  split
  next h =>
    rw [List.rdropWhile_eq_nil_iff]
    exact List.forall_mem_cons.mpr ⟨hc, List.all_eq_true.mp h⟩
  next h =>
    have hne : ¬ (u.reverse.dropWhile isBlank).isEmpty = true := by
      rw [List.isEmpty_iff, List.dropWhile_eq_nil_iff]
      exact fun hall => h (List.all_eq_true.mpr fun d hd => hall d (List.mem_reverse.mpr hd))
    rw [List.rdropWhile, List.reverse_cons, List.dropWhile_append, if_neg hne, List.reverse_append]
    rfl

theorem trim_eq (text : List Char) : trim text = (trimStart text).rdropWhile isBlank := rfl

theorem not_isBlank_of_head_trim {text : List Char} (h : c ∈ (trim text).head?) :
    isBlank c = false := by
  obtain ⟨rest, hrest⟩ : trim text <+: trimStart text := List.rdropWhile_prefix _ _
  have hhead : (trimStart text).head? = some c := by
    rw [← hrest, List.head?_append, Option.mem_def.mp h]
    rfl
  exact not_isBlank_of_head_dropWhile hhead

theorem trim_trim (text : List Char) : trim (trim text) = trim text := by
  have hstart : trimStart (trim text) = trim text := by
    cases h : trim text with
    | nil => rfl
    | cons c rest =>
      have hfirst : c ∈ (trim text).head? := by
        rw [h]
        rfl
      exact List.dropWhile_cons_of_neg (by simp [not_isBlank_of_head_trim hfirst])
  rw [trim_eq (trim text), hstart, trim_eq, List.rdropWhile_idempotent]

theorem trim_sublist (text : List Char) : (trim text).Sublist text :=
  (List.rdropWhile_prefix _ _).sublist.trans (List.dropWhile_sublist _)

theorem filter_trim {keep : Char → Bool} (hkeep : ∀ c, isBlank c = true → keep c = false)
    (text : List Char) : (trim text).filter keep = text.filter keep := by
  have hstart : ∀ u : List Char, (trimStart u).filter keep = u.filter keep := by
    intro u
    have hnone : (u.takeWhile isBlank).filter keep = [] :=
      List.filter_eq_nil_iff.mpr fun c hc => by simp [hkeep c (List.mem_takeWhile_imp hc)]
    conv_rhs => rw [← List.takeWhile_append_dropWhile (p := isBlank) (l := u)]
    rw [List.filter_append, hnone]
    rfl
  rw [Text.trim, List.filter_reverse, hstart, List.filter_reverse, List.reverse_reverse, hstart]

end Blanks

/-! ## The pass -/

section Pass

theorem isBlank_of_isPunctuation {c : Char} (h : isPunctuation c = true) : isBlank c = false := by
  simp only [isPunctuation, Bool.or_eq_true, beq_iff_eq] at h
  rcases h with (rfl | rfl) | rfl <;> rfl

theorem isPunctuation_of_isBlank {c : Char} (h : isBlank c = true) : isPunctuation c = false := by
  cases hp : isPunctuation c with
  | false => rfl
  | true => exact absurd h (by simp [isBlank_of_isPunctuation hp])

variable {p : Char} (hp : isPunctuation p = true)

include hp

/-- What has been written up to punctuation is never touched again. -/
theorem compactFrom_behind (after : Bool) (out done rest : List Char) :
    compactFrom after (out ++ p :: done) rest =
      (p :: done).reverse ++ compactFrom after out rest := by
  induction rest generalizing after out with
  | nil => simp [compactFrom]
  | cons c rest ih =>
    simp only [compactFrom]
    split
    next => rw [dropWhile_append_cons (isBlank_of_isPunctuation hp), ← List.cons_append, ih]
    next =>
      split
      next =>
        cases after with
        | true => exact ih true out
        | false => exact ih false (c :: out)
      next => exact ih false (c :: out)

theorem compactFrom_append_cons (after : Bool) (out u v : List Char) :
    compactFrom after out (u ++ p :: v) =
      (compactFrom after out u).rdropWhile isBlank ++ p :: compactFrom true [] v := by
  induction u generalizing after out with
  | nil =>
    have h := compactFrom_behind hp true [] (out.dropWhile isBlank) v
    rw [List.nil_append] at h
    simp only [List.nil_append, compactFrom, if_pos hp, h, List.rdropWhile_reverse]
    simp
  | cons c u ih =>
    simp only [List.cons_append, compactFrom]
    split
    next => exact ih true _
    next =>
      split
      next => exact ih after _
      next => exact ih false _

omit hp

theorem compactFrom_concat_blank {b : Char} (hb : isBlank b = true) (after : Bool)
    (out u : List Char) :
    (compactFrom after out (u ++ [b])).rdropWhile isBlank =
      (compactFrom after out u).rdropWhile isBlank := by
  induction u generalizing after out with
  | nil =>
    simp only [List.nil_append, compactFrom, isPunctuation_of_isBlank hb, if_pos hb,
      Bool.false_eq_true, if_false]
    cases after with
    | true => rfl
    | false =>
      change ((b :: out).reverse).rdropWhile isBlank = _
      rw [List.reverse_cons, List.rdropWhile_concat_pos _ _ _ hb]
  | cons c u ih =>
    simp only [List.cons_append, compactFrom]
    split
    next => exact ih true _
    next =>
      split
      next => exact ih after _
      next => exact ih false _

theorem exists_compactFrom_concat {c : Char} (hc : isBlank c = false) (after : Bool)
    (out u : List Char) : ∃ x, compactFrom after out (u ++ [c]) = x ++ [c] := by
  induction u generalizing after out with
  | nil =>
    rw [List.nil_append, compactFrom]
    split
    next => exact ⟨_, List.reverse_cons⟩
    next =>
      rw [if_neg (by simp [hc])]
      exact ⟨_, List.reverse_cons⟩
  | cons d u ih =>
    simp only [List.cons_append, compactFrom]
    split
    next => exact ih true _
    next =>
      split
      next => exact ih after _
      next => exact ih false _

/-- The induction is from the end, where blanks are all that trimming takes. -/
theorem rdropWhile_compactFrom (u : List Char) :
    (compactFrom true [] u).rdropWhile isBlank = compactFrom true [] (u.rdropWhile isBlank) := by
  induction u using List.reverseRecOn with
  | nil => rfl
  | append_singleton u c ih =>
    by_cases hc : isBlank c = true
    · rw [compactFrom_concat_blank hc, List.rdropWhile_concat_pos _ _ _ hc, ih]
    · obtain ⟨x, hx⟩ := exists_compactFrom_concat ((Bool.not_eq_true _).mp hc) true [] u
      rw [List.rdropWhile_concat_neg _ _ _ hc, hx, List.rdropWhile_concat_neg _ _ _ hc]

theorem compactFrom_trimStart (u : List Char) :
    compactFrom true [] (trimStart u) = compactFrom true [] u := by
  induction u with
  | nil => rfl
  | cons c u ih =>
    rw [trimStart, List.dropWhile_cons]
    split
    next hb =>
      simp only [compactFrom, isPunctuation_of_isBlank hb, if_pos hb, Bool.false_eq_true, if_false]
      exact ih
    next => rfl

/-- The beginning of a text is like a place after punctuation, unless a blank stands there. -/
theorem compactFrom_false {u : List Char} (hu : ∀ c ∈ u.head?, isBlank c = false) :
    compactFrom false [] u = compactFrom true [] u := by
  cases u with
  | nil => rfl
  | cons c u =>
    have hc : isBlank c = false := hu c rfl
    simp only [compactFrom, hc]
    rfl

theorem compactFrom_plain {u : List Char} (hu : ∀ c ∈ u, isPunctuation c = false)
    (out : List Char) : compactFrom false out u = out.reverse ++ u := by
  induction u generalizing out with
  | nil => simp [compactFrom]
  | cons c u ih =>
    obtain ⟨hc, hu⟩ := List.forall_mem_cons.mp hu
    simp only [compactFrom, hc, Bool.false_eq_true, if_false, ite_self, ih hu]
    simp

end Pass

/-! ## Pieces -/

/-- A text may be trimmed at its end after the pass as well as before. -/
theorem compact_eq (text : List Char) :
    compact text = (compactFrom true [] text).rdropWhile isBlank := by
  rw [compact, compactFrom_false fun _ => not_isBlank_of_head_trim, trim_eq,
    ← rdropWhile_compactFrom, compactFrom_trimStart]

theorem compact_append_cons {p : Char} (hp : isPunctuation p = true) (u v : List Char) :
    compact (u ++ p :: v) = compact u ++ p :: compact v := by
  rw [compact_eq, compactFrom_append_cons hp, rdropWhile_append_cons (isBlank_of_isPunctuation hp),
    ← compact_eq, ← compact_eq]

theorem compact_plain {u : List Char} (hu : ∀ c ∈ u, isPunctuation c = false) :
    compact u = trim u :=
  compactFrom_plain (fun c hc => hu c ((trim_sublist u).mem hc)) []

/-- A text is a piece without punctuation, or such a piece, punctuation, and another text. -/
@[elab_as_elim]
theorem pieces_induction {motive : List Char → Prop}
    (plain : ∀ u, (∀ c ∈ u, isPunctuation c = false) → motive u)
    (split : ∀ u p v, (∀ c ∈ u, isPunctuation c = false) → isPunctuation p = true → motive v →
      motive (u ++ p :: v)) (text : List Char) : motive text := by
  suffices h : ∀ u, (∀ c ∈ u, isPunctuation c = false) → motive (u ++ text) from
    h [] fun _ hc => absurd hc List.not_mem_nil
  induction text with
  | nil =>
    intro u hu
    rw [List.append_nil]
    exact plain u hu
  | cons c text ih =>
    intro u hu
    cases hc : isPunctuation c with
    | true => exact split u c text hu hc (ih [] fun _ hc => absurd hc List.not_mem_nil)
    | false =>
      rw [List.append_cons]
      refine ih (u ++ [c]) fun d hd => ?_
      rcases List.mem_append.mp hd with hd | hd
      · exact hu d hd
      · rwa [List.mem_singleton.mp hd]

theorem compact_compact (text : List Char) : compact (compact text) = compact text := by
  induction text using pieces_induction with
  | plain u hu =>
    rw [compact_plain hu, compact_plain fun c hc => hu c ((trim_sublist u).mem hc), trim_trim]
  | split u p v hu hp ih =>
    rw [compact_append_cons hp, compact_append_cons hp, ih, compact_plain hu,
      compact_plain fun c hc => hu c ((trim_sublist u).mem hc), trim_trim]

theorem compact_sublist (text : List Char) : (compact text).Sublist text := by
  induction text using pieces_induction with
  | plain u hu =>
    rw [compact_plain hu]
    exact trim_sublist u
  | split u p v hu hp ih =>
    rw [compact_append_cons hp, compact_plain hu]
    exact (trim_sublist u).append (ih.cons_cons p)

theorem filter_compact {keep : Char → Bool} (hkeep : ∀ c, isBlank c = true → keep c = false)
    (text : List Char) : (compact text).filter keep = text.filter keep := by
  induction text using pieces_induction with
  | plain u hu => rw [compact_plain hu, filter_trim hkeep]
  | split u p v hu hp ih =>
    rw [compact_append_cons hp, List.filter_append, List.filter_append, compact_plain hu,
      filter_trim hkeep, List.filter_cons, List.filter_cons, ih]

theorem compact_of_not_isBlank {text : List Char} (h : ∀ c ∈ text, isBlank c = false) :
    compact text = text := by
  have hfilter : (compact text).filter (fun c => !isBlank c) = text.filter fun c => !isBlank c :=
    filter_compact (fun c hc => by rw [hc]; rfl) text
  have hself : text.filter (fun c => !isBlank c) = text :=
    List.filter_eq_self.mpr fun c hc => by rw [h c hc]; rfl
  refine (compact_sublist text).eq_of_length_le ?_
  calc
    text.length = ((compact text).filter fun c => !isBlank c).length := by rw [hfilter, hself]
    _ ≤ (compact text).length := List.length_filter_le _ _

theorem compact_append_cons_eq_self_iff {p : Char} (hp : isPunctuation p = true)
    (u v : List Char) :
    compact (u ++ p :: v) = u ++ p :: v ↔ compact u = u ∧ compact v = v := by
  rw [compact_append_cons hp]
  constructor
  · intro h
    -- Neither piece grows, so neither has become shorter.
    have hu := (compact_sublist u).length_le
    have hv := (compact_sublist v).length_le
    have hlen := congrArg List.length h
    simp only [List.length_append, List.length_cons] at hlen
    obtain ⟨hcu, hcv⟩ := List.append_inj h (by omega)
    exact ⟨hcu, (List.cons.inj hcv).2⟩
  · rintro ⟨hu, hv⟩
    rw [hu, hv]

end BuildAdvisor.Template
