import BuildAdvisor.Proofs.Symbols.Declarations
import BuildAdvisor.Proofs.Text.Passage

/-!
Macros that a text defines, include guards among them.

* `Directive` — the sign, a keyword and a name at the head of a text, with the blanks about them;
* `Directive.definedName_eq` — a text begins with a definition of one name only;
* `Directive.overlap` — a definition that reaches into the line of another one is that one;
* `directive_of_head?`, `exists_end_of_directive` — what the pattern for macros matches;
* `exists_occurrence_of_directive` — the search passes no definition over;
* `mem_captures_macro_iff` — the macros found are those defined where nothing but blanks stands
  before the sign in its line;
* `Guarded`, `guard_left_out_iff` — which include guards are kept from the declared names.
-/

set_option autoImplicit false

namespace BuildAdvisor.Symbols

open BuildAdvisor.Text BuildAdvisor.Text.Pattern

/-! ## Directives -/

/-- A directive from behind its sign to the end of its name. -/
def behindSign (keyword : String) (gap sep name : List Char) : List Char :=
  gap ++ (keyword.toList ++ (sep ++ name))

def spelled (keyword : String) (lead gap sep name : List Char) : List Char :=
  lead ++ '#' :: behindSign keyword gap sep name

/-- The text begins with a directive, which may go on behind the name. -/
structure Directive (keyword : String) (text lead gap sep name after : List Char) : Prop where
  text_eq : text = spelled keyword lead gap sep name ++ after
  blank_lead : ∀ c ∈ lead, isBlank c = true
  blank_gap : ∀ c ∈ gap, isBlank c = true
  blank_sep : ∀ c ∈ sep, isBlank c = true
  separated : sep ≠ []
  word : ∀ c ∈ name, isWord c = true
  right : ∀ c ∈ after.head?, isWord c = false

theorem isBlank_sign : isBlank '#' = false := by decide

theorem sign_notMem_of_blank {cs : List Char} (h : ∀ c ∈ cs, isBlank c = true) : '#' ∉ cs := by
  intro hsign
  have hblank := h '#' hsign
  rw [isBlank_sign] at hblank
  cases hblank

theorem not_blank_of_opensName {name : List Char} (hopens : opensName name = true)
    (after : List Char) : ∀ c ∈ (name ++ after).head?, isBlank c = false := by
  obtain ⟨d, rest, rfl⟩ := List.exists_cons_of_ne_nil (ne_nil_of_opensName hopens)
  intro c hc
  obtain rfl := Option.some.inj (Option.mem_def.mp hc)
  exact isBlank_of_isWord (isWord_of_isNameStart hopens)

namespace Directive

variable {keyword : String} {text lead gap sep name after : List Char}

theorem text_split (h : Directive keyword text lead gap sep name after) :
    text = lead ++ '#' :: (behindSign keyword gap sep name ++ after) := by
  rw [h.text_eq, spelled, List.append_assoc, List.cons_append]

theorem text_assoc (h : Directive keyword text lead gap sep name after) :
    text = lead ++ '#' :: (gap ++ (keyword.toList ++ (sep ++ (name ++ after)))) := by
  rw [h.text_split, behindSign]
  simp only [List.append_assoc]

theorem append (h : Directive keyword text lead gap sep name after) {later : List Char}
    (hlater : ∀ c ∈ later.head?, isWord c = false) :
    Directive keyword (text ++ later) lead gap sep name (after ++ later) where
  text_eq := by rw [h.text_eq, List.append_assoc]
  blank_lead := h.blank_lead
  blank_gap := h.blank_gap
  blank_sep := h.blank_sep
  separated := h.separated
  word := h.word
  right := by
    cases after with
    | nil => exact hlater
    | cons c after => exact h.right

end Directive

/-- The name in a definition that begins a text. -/
def definedName (text : List Char) : List Char :=
  let rest := (text.dropWhile isBlank).tail
  (((rest.dropWhile isBlank).drop "define".length).dropWhile isBlank).takeWhile isWord

section Definition

variable {text lead gap sep name after : List Char}

theorem Directive.definedName_eq (h : Directive "define" text lead gap sep name after)
    (hopens : opensName name = true) : definedName text = name := by
  have hsign (rest : List Char) : ∀ c ∈ ('#' :: rest).head?, isBlank c = false := by
    rintro c ⟨⟩
    exact isBlank_sign
  have hkeyword (rest : List Char) :
      ∀ c ∈ ("define".toList ++ rest).head?, isBlank c = false := by
    rintro c ⟨⟩
    decide
  have hdrop (rest : List Char) : ("define".toList ++ rest).drop "define".length = rest := rfl
  have hname : (name ++ after).takeWhile isWord = name := by
    have hrest := (FirstRun.mk rfl h.word h.right).dropWhile_eq
    have hsplit := List.takeWhile_append_dropWhile (p := isWord) (l := name ++ after)
    rw [hrest] at hsplit
    exact List.append_cancel_right hsplit
  rw [definedName, h.text_assoc, dropWhile_run h.blank_lead (hsign _), List.tail_cons,
    dropWhile_run h.blank_gap (hkeyword _), hdrop,
    dropWhile_run h.blank_sep (not_blank_of_opensName hopens after), hname]

/-- A definition ends with a character that is not blank and holds one sign. -/
theorem Directive.behindSign_end (h : Directive "define" text lead gap sep name after)
    (hopens : opensName name = true) :
    '#' ∉ behindSign "define" gap sep name ∧
      ∃ c, (behindSign "define" gap sep name).getLast? = some c ∧ isBlank c = false := by
  have hne := ne_nil_of_opensName hopens
  constructor
  · simp only [behindSign, List.mem_append, not_or]
    refine ⟨sign_notMem_of_blank h.blank_gap, by decide, sign_notMem_of_blank h.blank_sep, ?_⟩
    intro hsign
    exact absurd (h.word '#' hsign) (by decide)
  · refine ⟨name.getLast hne, ?_, isBlank_of_isWord (h.word _ (List.getLast_mem hne))⟩
    rw [behindSign, ← List.append_assoc, ← List.append_assoc, List.getLast?_append_of_ne_nil _ hne,
      List.getLast?_eq_some_getLast hne]

/-- A part without a sign that ends otherwise than blank ends before the blanks that lead to the
next sign. -/
theorem exists_append_of_sign {part later front lead rest : List Char} {last : Char}
    (h : part ++ later = front ++ (lead ++ '#' :: rest)) (hsign : '#' ∉ part)
    (hlast : part.getLast? = some last) (hblank : isBlank last = false)
    (hlead : ∀ c ∈ lead, isBlank c = true) : ∃ between, front = part ++ between := by
  rcases List.append_eq_append_iff.mp h with ⟨between, hfront, -⟩ | ⟨extra, hpart, hover⟩
  · exact ⟨between, hfront⟩
  · have hextra : ∀ c ∈ extra, isBlank c = true := by
      rcases List.append_eq_append_iff.mp hover with ⟨more, hmore, hnext⟩ | ⟨more, hmore, -⟩
      · cases more with
        | nil =>
          rw [List.append_nil] at hmore
          exact hmore ▸ hlead
        | cons c more =>
          -- The part would reach over the sign.
          obtain ⟨rfl, -⟩ := List.cons.inj hnext
          exact absurd (by simp [hpart, hmore]) hsign
      · exact fun c hc => hlead c (hmore ▸ List.mem_append_left more hc)
    rcases List.eq_nil_or_concat extra with rfl | ⟨front', c, rfl⟩
    · exact ⟨[], by rw [hpart, List.append_nil, List.append_nil]⟩
    · rw [List.concat_eq_append] at hextra hpart
      have hc : isBlank c = true := hextra c List.mem_concat_self
      rw [hpart, ← List.append_assoc, List.getLast?_concat] at hlast
      rw [Option.some.inj hlast, hblank] at hc
      cases hc

/-- A definition that begins before a line and does not end before it is the definition with which
the line begins. -/
theorem Directive.overlap {front lead' gap' sep' name' after' : List Char}
    (hwhole : Directive "define" (front ++ text) lead' gap' sep' name' after')
    (hopens' : opensName name' = true)
    (h : Directive "define" text lead gap sep name after) (hopens : opensName name = true)
    (hline : ∀ c ∈ front.getLast?, c = '\n') :
    name' = name ∨ ∃ between, between ≠ [] ∧
      front = spelled "define" lead' gap' sep' name' ++ between := by
  have hsame (hblank : ∀ c ∈ front, isBlank c = true) : name' = name := by
    rw [← hwhole.definedName_eq hopens', ← h.definedName_eq hopens, definedName, definedName,
      List.dropWhile_append_of_pos hblank]
  rcases List.append_eq_append_iff.mp hwhole.text_split with
    ⟨more, hlead, -⟩ | ⟨more, hfront, hmore⟩
  · exact .inl (hsame fun c hc => hwhole.blank_lead c (hlead ▸ List.mem_append_left more hc))
  · cases more with
    | nil =>
      rw [List.append_nil] at hfront
      exact .inl (hsame (hfront ▸ hwhole.blank_lead))
    | cons c more =>
      obtain ⟨rfl, hbody⟩ := List.cons.inj hmore
      rw [h.text_assoc] at hbody
      obtain ⟨hsign, last, hlast, hblank⟩ := hwhole.behindSign_end hopens'
      obtain ⟨between, rfl⟩ := exists_append_of_sign hbody hsign hlast hblank h.blank_lead
      refine .inr ⟨between, ?_, by rw [hfront, spelled, List.append_assoc]; rfl⟩
      rintro rfl
      -- The line before would end with a name.
      have hend : last = '\n' := hline last (by
        rw [hfront, List.append_nil, List.getLast?_append, List.getLast?_cons, hlast]
        rfl)
      rw [hend] at hblank
      cases hblank

end Definition

/-! ## One match -/

section Match

variable {rounds : Nat} {p q : Place}

theorem macroPattern_eq :
    macroPattern = seq lineStart (seq blanks (seq (char (· == '#'))
      (seq blanks (seq (literal "define") (seq blanks₁ (capture name)))))) :=
  rfl

theorem atLineStart_iff : p.atLineStart = true ↔ ∀ c ∈ p.before, c = '\n' := by
  rw [Place.atLineStart]
  cases p.before <;> simp

theorem mem_ends_lineStart (h : q ∈ ends rounds lineStart p) : p.atLineStart = true ∧ q = p := by
  rw [ends] at h
  split at h
  next hline => exact ⟨hline, List.mem_singleton.mp h⟩
  next => cases h

theorem directive_of_head? (hrounds : p.rest.length ≤ rounds)
    (h : (ends rounds macroPattern p).head? = some q) :
    p.atLineStart = true ∧ ∃ lead gap sep name after,
      Directive "define" p.rest lead gap sep name after ∧ opensName name = true ∧
        q.capturedText = some name ∧
        q.index = p.index + (spelled "define" lead gap sep name).length := by
  rw [macroPattern_eq] at h
  obtain ⟨p₁, hp₁, hq₁⟩ := exists_of_head?_seq h
  obtain ⟨hline, rfl⟩ := mem_ends_lineStart hp₁
  obtain ⟨p₂, hp₂, hq₂⟩ := exists_of_head?_seq hq₁
  obtain ⟨lead, hlead, hpass₂⟩ := passes_blanks hp₂
  obtain ⟨p₃, hp₃, hq₃⟩ := exists_of_head?_seq hq₂
  obtain ⟨sign, hsign, hpass₃⟩ := passes_char hp₃
  obtain rfl : sign = '#' := eq_of_beq hsign
  obtain ⟨p₄, hp₄, hq₄⟩ := exists_of_head?_seq hq₃
  obtain ⟨gap, hgap, hpass₄⟩ := passes_blanks hp₄
  obtain ⟨p₅, hp₅, hq₅⟩ := exists_of_head?_seq hq₄
  have hpass₅ := passes_literal hp₅
  obtain ⟨p₆, hp₆, hq₆⟩ := exists_of_head?_seq hq₅
  obtain ⟨sep, hne, hsep, hpass₆⟩ := passes_blanks₁ hp₆
  have hpass : p₁.Passes (lead ++ '#' :: (gap ++ ("define".toList ++ sep))) p₆ :=
    hpass₂.trans (hpass₃.trans (hpass₄.trans (hpass₅.trans hpass₆)))
  have hlength : p₆.rest.length ≤ rounds := by
    rw [hpass.rest_eq, List.length_append] at hrounds
    omega
  obtain ⟨name, hfirst, hopens, hpass₇, hcaptured⟩ := passes_capture_name hlength hq₆
  have hwhole : p₁.Passes (spelled "define" lead gap sep name) q := by
    have hall := hpass.trans hpass₇
    simpa only [spelled, behindSign, List.append_assoc, List.cons_append] using hall
  exact ⟨hline, lead, gap, sep, name, q.rest,
    ⟨hwhole.rest_eq, hlead, hgap, hsep, hne, hfirst.word, hfirst.right⟩, hopens, hcaptured,
    hwhole.index_eq⟩

theorem exists_end_of_directive {lead gap sep name after : List Char}
    (h : Directive "define" p.rest lead gap sep name after) (hopens : opensName name = true)
    (hline : p.atLineStart = true) (hrounds : p.rest.length ≤ rounds) :
    ∃ q, q ∈ ends rounds macroPattern p := by
  have hstart : p ∈ ends rounds lineStart p := by
    rw [ends, if_pos hline]
    exact List.mem_singleton_self p
  have hlater {r t : Place} {pattern : Pattern} (ht : t ∈ ends rounds pattern r)
      (hr : r.rest.length ≤ rounds) : t.rest.length ≤ rounds :=
    (ahead_of_mem_ends ht).length_le.trans hr
  obtain ⟨p₂, hp₂, hrest₂⟩ := exists_blanks h.text_assoc h.blank_lead
    (by rintro c ⟨⟩; exact isBlank_sign) hrounds
  have hrounds₂ := hlater hp₂ hrounds
  obtain ⟨p₃, hp₃, hrest₃⟩ : ∃ t ∈ ends rounds (char (· == '#')) p₂, t.rest = _ :=
    exists_char hrest₂ rfl
  have hrounds₃ := hlater hp₃ hrounds₂
  obtain ⟨p₄, hp₄, hrest₄⟩ := exists_blanks hrest₃ h.blank_gap
    (by rintro c ⟨⟩; decide) hrounds₃
  have hrounds₄ := hlater hp₄ hrounds₃
  obtain ⟨p₅, hp₅, hrest₅⟩ : ∃ t ∈ ends rounds (literal "define") p₄, t.rest = _ :=
    exists_literal hrest₄
  have hrounds₅ := hlater hp₅ hrounds₄
  obtain ⟨p₆, hp₆, hrest₆⟩ := exists_blanks₁ hrest₅ h.separated h.blank_sep
    (not_blank_of_opensName hopens after) hrounds₅
  obtain ⟨q, hq⟩ := exists_capture_name ⟨hrest₆, h.word, h.right⟩ hopens (hlater hp₆ hrounds₅)
  refine ⟨q, ?_⟩
  rw [macroPattern_eq]
  exact mem_ends_seq hstart (mem_ends_seq hp₂ (mem_ends_seq hp₃ (mem_ends_seq hp₄
    (mem_ends_seq hp₅ (mem_ends_seq hp₆ hq)))))

end Match

/-! ## All matches -/

/-- The search comes to every definition that begins a line: the match before it ends before that
line, since it holds no further sign. -/
theorem exists_occurrence_of_directive {rounds : Nat} {before : Option Char}
    {front text lead gap sep name after : List Char}
    (h : Directive "define" text lead gap sep name after) (hopens : opensName name = true)
    (hline : ∀ c ∈ front.getLast?.or before, c = '\n')
    (hrounds : (front ++ text).length ≤ rounds) :
    ∃ q ∈ occurrencesFrom rounds macroPattern 0 before (front ++ text),
      q.capturedText = some name := by
  -- The text before the line gets shorter: by one character, or by a whole match.
  induction hn : front.length using Nat.strong_induction_on generalizing front before with
  | _ n ih =>
    subst hn
    cases hq : (ends rounds macroPattern ⟨before, front ++ text, 0, none⟩).head? with
    | none =>
      have hnone := List.head?_eq_none_iff.mp hq
      cases front with
      | nil =>
        obtain ⟨q, hmatch⟩ := exists_end_of_directive (p := ⟨before, text, 0, none⟩) h hopens
          (atLineStart_iff.mpr hline) hrounds
        rw [List.nil_append] at hnone
        rw [hnone] at hmatch
        cases hmatch
      | cons c front =>
        rw [getLast?_cons_or] at hline
        rw [List.cons_append] at hnone ⊢
        rw [occurrencesFrom_cons_none hnone]
        exact ih front.length (Nat.lt_succ_self _) hline (Nat.le_of_succ_le hrounds) rfl
    | some q =>
      obtain ⟨-, lead', gap', sep', name', after', hwhole, hopens', hcaptured, hindex⟩ :=
        directive_of_head? hrounds hq
      change Directive "define" (front ++ text) lead' gap' sep' name' after' at hwhole
      have hbefore : ∀ c ∈ front.getLast?, c = '\n' := fun c hc =>
        hline c (by rw [Option.mem_def.mp hc]; rfl)
      have hne : spelled "define" lead' gap' sep' name' ≠ [] := by simp [spelled]
      rw [Nat.zero_add] at hindex
      rcases hwhole.overlap hopens' h hopens hbefore with rfl | ⟨between, hbetween, rfl⟩
      · rw [hwhole.text_eq] at hq ⊢
        rw [occurrencesFrom_match hne hq hindex]
        exact ⟨q, List.mem_cons_self, hcaptured⟩
      · rw [List.append_assoc] at hq hrounds ⊢
        have hlater (o : Option Char) : ∀ c ∈ between.getLast?.or o, c = '\n' := by
          rw [List.getLast?_append_of_ne_nil _ hbetween] at hbefore
          rw [List.getLast?_eq_some_getLast hbetween] at hbefore ⊢
          exact hbefore
        have hpos := List.length_pos_iff.mpr hne
        rw [List.length_append] at hrounds
        rw [occurrencesFrom_match hne hq hindex]
        obtain ⟨r, hr, hname⟩ := ih between.length (by rw [List.length_append]; omega) (hlater _)
          (Nat.le_trans (Nat.le_add_left _ _) hrounds) rfl
        exact ⟨r, List.mem_cons_of_mem q hr, hname⟩

/-- Somewhere a line begins with a definition of the name, blanks before the sign aside. -/
def DefinesMacro (text name : List Char) : Prop :=
  ∃ before rest lead gap sep after, text = before ++ rest ∧ (∀ c ∈ before.getLast?, c = '\n') ∧
    Directive "define" rest lead gap sep name after

theorem mem_captures_macro_iff {text name : List Char} :
    name ∈ macroPattern.captures text ↔ DefinesMacro text name ∧ opensName name = true := by
  rw [captures, List.mem_filterMap]
  constructor
  · rintro ⟨q, hq, hname⟩
    obtain ⟨p, ⟨before, htext, hbefore⟩, hlength, hfirst⟩ := exists_of_mem_occurrences hq
    obtain ⟨hline, lead, gap, sep, found, after, h, hopens, hcaptured, -⟩ :=
      directive_of_head? hlength hfirst
    rw [hcaptured] at hname
    obtain rfl := Option.some.inj hname
    rw [atLineStart_iff, ← hbefore] at hline
    exact ⟨⟨before, p.rest, lead, gap, sep, after, htext.symm, hline, h⟩, hopens⟩
  · rintro ⟨⟨before, rest, lead, gap, sep, after, rfl, hline, h⟩, hopens⟩
    refine exists_occurrence_of_directive h hopens ?_ (Nat.le_refl _)
    rwa [Option.or_none]

/-! ## Include guards -/

/-- The lines of a text that begin with the sign, perhaps behind blanks. -/
def directives (text : List Char) : List (List Char) :=
  (text.splitOn '\n').filter fun line => (trimStart line).head? == some '#'

def IsDirective (keyword : String) (name line : List Char) : Prop :=
  ∃ lead gap sep after, Directive keyword line lead gap sep name after

/-- The text has a line `#ifndef guard` and behind it a line `#define guard`, as a header whose
first two directives these are. -/
def Guarded (text guard : List Char) : Prop :=
  ∃ opening defining, IsDirective "ifndef" guard opening ∧ IsDirective "define" guard defining ∧
    [opening, defining].Sublist (directives text)

/-- What is joined stands between two separators, if not at an end of the whole. -/
theorem exists_of_mem_intercalate {x : Char} {lines : List (List Char)} {line : List Char}
    (h : line ∈ lines) :
    ∃ before after, [x].intercalate lines = before ++ (line ++ after) ∧
      (∀ c ∈ before.getLast?, c = x) ∧ ∀ c ∈ after.head?, c = x := by
  induction lines with
  | nil => cases h
  | cons first lines ih =>
    cases lines with
    | nil =>
      obtain rfl := List.mem_singleton.mp h
      exact ⟨[], [], by simp, by simp, by simp⟩
    | cons second lines =>
      rw [List.intercalate_cons_cons]
      rcases List.mem_cons.mp h with rfl | h
      · exact ⟨[], x :: [x].intercalate (second :: lines), by simp, by simp, by simp⟩
      · obtain ⟨before, after, heq, hbefore, hafter⟩ := ih h
        refine ⟨first ++ [x] ++ before, after, by rw [heq, List.append_assoc _ before], ?_, hafter⟩
        intro c hc
        cases before with
        | nil => simpa using hc.symm
        | cons d before =>
          rw [List.getLast?_append_of_ne_nil _ (List.cons_ne_nil d before)] at hc
          exact hbefore c hc

theorem definesMacro_of_line {text name line : List Char} (hline : line ∈ text.splitOn '\n')
    (h : IsDirective "define" name line) : DefinesMacro text name := by
  obtain ⟨lead, gap, sep, after, hdirective⟩ := h
  obtain ⟨before, later, htext, hbefore, hlater⟩ := exists_of_mem_intercalate (x := '\n') hline
  rw [List.intercalate_splitOn] at htext
  refine ⟨before, line ++ later, lead, gap, sep, after ++ later, htext, hbefore, ?_⟩
  refine hdirective.append fun c hc => ?_
  rw [hlater c hc]
  decide

/-- The names that a text declares otherwise than as macros. -/
def otherNames (text : List Char) : List (List Char) :=
  typePattern.captures text ++ aliasPattern.captures text ++
    (functionPattern.captures text).filter fun n => !isKeyword n

theorem mem_declaredNames_iff {text name : List Char} :
    name ∈ declaredNames text ↔ name ∈ otherNames text ∨
      name ∈ macroPattern.captures text ∧ isGuard name = false := by
  have hnames : declaredNames text = otherNames text ++
      (macroPattern.captures text).filter fun n => !isGuard n := rfl
  rw [hnames, List.mem_append, List.mem_filter, Bool.not_eq_true']

theorem isGuard_iff {name : List Char} :
    isGuard name = true ↔ ∃ ending ∈ guardEndings, ending.toList <:+ name := by
  simp only [isGuard, List.any_eq_true, List.isSuffixOf_iff_suffix]

theorem mem_declarations_iff {text name : List Char} :
    String.ofList name ∈ declarations text ↔ name ∈ declaredNames text := by
  rw [declarations, Names.mem_ofList, List.mem_map]
  constructor
  · rintro ⟨found, hfound, heq⟩
    rwa [← String.ofList_injective heq]
  · intro h
    exact ⟨name, h, rfl⟩

/-- An include guard is left out for its ending alone: with any other name it is declared like
every macro. -/
theorem guard_left_out_iff {text guard : List Char} (h : Guarded text guard) :
    String.ofList guard ∉ declarations text ↔
      opensName guard = false ∨
        (∃ ending ∈ guardEndings, ending.toList <:+ guard) ∧ guard ∉ otherNames text := by
  obtain ⟨opening, defining, -, hdefining, hlines⟩ := h
  have hline : defining ∈ directives text := hlines.subset (by simp)
  have hdefined := definesMacro_of_line (List.mem_of_mem_filter hline) hdefining
  have hother : opensName guard = false → guard ∉ otherNames text := fun hopens hother => by
    have hname := nameIn_of_mem_declaredNames (mem_declaredNames_iff.mpr (.inl hother))
    rw [hname.2] at hopens
    cases hopens
  rw [mem_declarations_iff, mem_declaredNames_iff, mem_captures_macro_iff, ← isGuard_iff]
  cases hopens : opensName guard with
  | false => simp [hother hopens]
  | true => simp [hdefined, and_comm]

theorem isDirective_spelled {keyword : String} {name : List Char}
    (hword : name.all isWord = true) :
    IsDirective keyword name (spelled keyword [] [] [' '] name) :=
  ⟨[], [], [' '], [], by simp, by simp, by simp, List.forall_mem_singleton.mpr (by decide),
    by simp, List.all_eq_true.mp hword, by simp⟩

def slotsHeader : List Char :=
  "#ifndef SLOTS_H\n#define SLOTS_H\n#define SLOTS 8\n#endif\n".toList

theorem slotsHeader_left_out :
    Guarded slotsHeader "SLOTS_H".toList ∧
      String.ofList "SLOTS_H".toList ∉ declarations slotsHeader := by
  have hword : "SLOTS_H".toList.all isWord = true := by decide
  have hguarded : Guarded slotsHeader "SLOTS_H".toList := by
    have hlines : directives slotsHeader =
        [spelled "ifndef" [] [] [' '] "SLOTS_H".toList,
          spelled "define" [] [] [' '] "SLOTS_H".toList] ++
        ["#define SLOTS 8".toList, "#endif".toList] := by
      decide +kernel
    refine ⟨_, _, isDirective_spelled hword, isDirective_spelled hword, ?_⟩
    rw [hlines]
    exact List.sublist_append_left _ _
  exact ⟨hguarded, (guard_left_out_iff hguarded).mpr (by decide +kernel)⟩

def hxxHeader : List Char :=
  "#ifndef WIDGET_HXX\n#define WIDGET_HXX\nstruct Point \x7b int x; \x7d;\n#endif\n".toList

/-- The guard's directives are the first two, but its ending is none that is looked for. -/
theorem hxxHeader_declares_guard :
    (directives hxxHeader).take 2 =
        ["#ifndef WIDGET_HXX".toList, "#define WIDGET_HXX".toList] ∧
      "WIDGET_HXX" ∈ declarations hxxHeader := by
  have hword : "WIDGET_HXX".toList ∈ declaredNames hxxHeader := by decide +kernel
  exact ⟨by decide +kernel,
    Names.mem_ofList.mpr (List.mem_map.mpr ⟨"WIDGET_HXX".toList, hword, String.ofList_toList⟩)⟩

end BuildAdvisor.Symbols
