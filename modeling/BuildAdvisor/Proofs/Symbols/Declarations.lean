import BuildAdvisor.Proofs.Symbols.Identifiers

/-!
Declared names are names of the text.

* `isWord_of_isOneOf`, `isWord_of_isSeparator` — punctuation around a name is none of a word;
* `goesOnFromWordEnd_typeEnding` — why `final` behind the name of a type cuts no name short;
* `capturesNames_typePattern`, `capturesNames_aliasPattern`, `capturesNames_functionPattern`,
  `capturesNames_macroPattern` — each kind of declaration captures whole words;
* `declarations_used` — a header uses all that it declares.
-/

set_option autoImplicit false

namespace BuildAdvisor.Symbols

open BuildAdvisor.Text BuildAdvisor.Text.Pattern

/-! ## Punctuation -/

theorem isWord_of_isOneOf {cs : String} (h : cs.toList.any isWord = false) (c : Char)
    (hc : isOneOf cs c = true) : isWord c = false := by
  rw [List.any_eq_false] at h
  exact Bool.eq_false_iff.mpr (h c (List.contains_iff_mem.mp hc))

theorem isWord_of_isSeparator (c : Char) (hc : isSeparator c = true) : isWord c = false := by
  rcases Bool.or_eq_true_iff.mp hc with hblank | hsign
  · exact isWord_of_isBlank hblank
  · exact isWord_of_isOneOf (by decide) c hsign

theorem failsInWord_beq {sign : Char} (h : isWord sign = false) :
    FailsInWord (char (· == sign)) :=
  failsInWord_char fun _ hc => eq_of_beq hc ▸ h

/-! ## The end of a type declaration -/

/-- What follows the name of a type, but for `final`. -/
def typeSign : Pattern :=
  seq blanks (char (isOneOf ":\x7b;"))

/-- What follows the name of a type. -/
def typeEnding : Pattern :=
  seq blanks (seq (optional (seq (literal "final") blanks)) (char (isOneOf ":\x7b;")))

theorem failsInWord_typeSign : FailsInWord (char (isOneOf ":\x7b;")) :=
  failsInWord_char (isWord_of_isOneOf (by decide))

section TypeEnding

variable {rounds : Nat} {p : Place}

theorem typeEnding_of_typeSign (h : ends rounds typeSign p ≠ []) :
    ends rounds typeEnding p ≠ [] := by
  obtain ⟨q, hq⟩ := List.exists_mem_of_ne_nil _ h
  obtain ⟨r, hr, hsign⟩ := List.mem_flatMap.mp hq
  have hnone : r ∈ ends rounds (optional (seq (literal "final") blanks)) r :=
    List.mem_append_right _ (List.mem_singleton.mpr rfl)
  exact List.ne_nil_of_mem (List.mem_flatMap.mpr ⟨r, hr, List.mem_flatMap.mpr ⟨r, hnone, hsign⟩⟩)

theorem typeEnding_within (hwithin : p.inWord = true) (h : ends rounds typeEnding p ≠ []) :
    ∃ rest, p.rest = "final".toList ++ rest ∧
      ends rounds typeSign (p.advance "final".toList.length) ≠ [] := by
  obtain ⟨q, hq⟩ := List.exists_mem_of_ne_nil _ h
  obtain ⟨r, hr, hmore⟩ := List.mem_flatMap.mp hq
  rw [ends_blanks_of_inWord hwithin, List.mem_singleton] at hr
  subst hr
  obtain ⟨t, ht, hsign⟩ := List.mem_flatMap.mp hmore
  rcases List.mem_append.mp ht with hfinal | hnone
  · obtain ⟨u, hu, hblanks⟩ := List.mem_flatMap.mp hfinal
    obtain ⟨rest, hrest, rfl⟩ := mem_ends_literal hu
    exact ⟨rest, hrest, List.ne_nil_of_mem (List.mem_flatMap.mpr ⟨t, hblanks, hsign⟩)⟩
  · rw [List.mem_singleton.mp hnone, failsInWord_typeSign hwithin] at hsign
    cases hsign

/-- What matches from within a word is `final` at its end and the sign behind it, and the sign can
follow the name itself. -/
theorem goesOnFromWordEnd_typeEnding : GoesOnFromWordEnd typeEnding := by
  intro rounds p q hwithin hdrop hmatch
  obtain ⟨rest, hp, hsign⟩ := typeEnding_within hwithin hmatch
  obtain ⟨run, after, hfirst⟩ := exists_firstRun rest
  have hword : FirstRun p.rest ("final".toList ++ run) after := by
    refine ⟨by rw [hp, hfirst.text_eq, List.append_assoc], fun c hc => ?_, hfirst.right⟩
    rcases List.mem_append.mp hc with hfinal | hrun
    · have hall : "final".toList.all isWord = true := by decide
      exact List.all_eq_true.mp hall c hfinal
    · exact hfirst.word c hrun
  have hrun : run = [] := by
    by_contra hne
    have hlonger : "final".toList.length < ("final".toList ++ run).length := by
      rw [List.length_append]
      exact Nat.lt_add_of_pos_right (List.length_pos_iff.mpr hne)
    have hstill := Place.inWord_advance hword (by decide) hlonger
    exact hsign (failsInWord_typeSign.after_blanks hstill)
  subst hrun
  have hrest : (p.advance "final".toList.length).rest = q.rest := by
    rw [hdrop, hword.dropWhile_eq, Place.advance, hp, List.drop_left, hfirst.text_eq]
    rfl
  exact typeEnding_of_typeSign fun hnone => hsign ((ends_eq_nil_iff rfl hrest).mpr hnone)

end TypeEnding

/-! ## Declarations -/

theorem capturesNames_typePattern : CapturesNames anywhere typePattern := by
  have hname : CapturesNames outsideWord (seq (capture name) typeEnding) :=
    capturesNames_name rfl goesOnFromWordEnd_typeEnding
  have hwords : CapturesNames outsideWord
      (seq (many false (seq (some₁ (char isWord)) blanks₁)) (seq (capture name) typeEnding)) := by
    refine .seq (fun rounds p q hp hq => ?_) hname
    refine outside_of_mem_ends_many (fun r t ht => ?_) hp hq
    obtain ⟨_, _, hblanks⟩ := List.mem_flatMap.mp ht
    exact outside_of_mem_ends_blanks₁ hblanks
  exact .after (.after (.after (.after
    (.seq (fun _ _ _ _ => outside_of_mem_ends_blanks₁) hwords))))

theorem capturesNames_aliasPattern : CapturesNames anywhere aliasPattern := by
  have hending {sign : Char} (h : isWord sign = false) :
      GoesOnFromWordEnd (seq blanks (char (· == sign))) :=
    (failsInWord_beq h).after_blanks.goesOnFromWordEnd
  refine .after (.after (.choice (.after ?_) (.after (.after (.after ?_)))))
  · exact .seq (fun _ _ _ _ => outside_of_mem_ends_blanks₁)
      (capturesNames_name rfl (hending (by decide)))
  · exact .seq (fun _ _ _ _ => outside_of_mem_ends_wordEdge)
      (capturesNames_name rfl (hending (by decide)))

theorem capturesNames_functionPattern : CapturesNames anywhere functionPattern := by
  refine .after (.after (.after (.after (.after (.seq ?_ (capturesNames_name (by decide) ?_))))))
  · exact fun _ _ _ _ => outside_of_mem_ends_char isWord_of_isSeparator
  · exact ((failsInWord_beq (by decide)).before _).after_blanks.goesOnFromWordEnd

theorem capturesNames_macroPattern : CapturesNames anywhere macroPattern :=
  .after (.after (.after (.after (.after
    (.seq (fun _ _ _ _ => outside_of_mem_ends_blanks₁) capturesNames_last)))))

theorem nameIn_of_mem_declaredNames {text word : List Char} (h : word ∈ declaredNames text) :
    NameIn text word := by
  rw [declaredNames, List.mem_append, List.mem_append, List.mem_append] at h
  rcases h with ((htype | halias) | hfunction) | hmacro
  · exact capturesNames_typePattern.nameIn htype
  · exact capturesNames_aliasPattern.nameIn halias
  · exact capturesNames_functionPattern.nameIn (List.mem_of_mem_filter hfunction)
  · exact capturesNames_macroPattern.nameIn (List.mem_of_mem_filter hmacro)

theorem nameIn_of_mem_declarations {text : List Char} {x : String} (h : x ∈ declarations text) :
    NameIn text x.toList := by
  rw [declarations, Names.mem_ofList, List.mem_map] at h
  obtain ⟨word, hword, rfl⟩ := h
  rw [String.toList_ofList]
  exact nameIn_of_mem_declaredNames hword

/-! ## A header as its own dependent -/

theorem usedAmong_declarations (text : List Char) :
    usedAmong (declarations text) text = declarations text := by
  ext x
  rw [mem_usedAmong_iff]
  exact and_iff_left_of_imp nameIn_of_mem_declarations

/-- Every declared name is one of the names of the text, so a header uses all that it declares. -/
theorem declarations_used :
    (∀ (text : List Char) (x : String), x ∈ declarations text → x.toList ∈ identifiers text) ∧
      ∀ (s : SourceFiles) (header : String),
        s.inspector.used header header = s.inspector.declared header ∧
          ∀ text, s.read header = .ok text →
            s.inspector.declared header = .ok (declarations text) := by
  refine ⟨fun text x hx => mem_identifiers_iff.mpr (nameIn_of_mem_declarations hx), ?_⟩
  intro s header
  have hdeclared : s.inspector.declared header = (s.read header).map declarations := rfl
  have hused : s.inspector.used header header =
      (s.read header).map declarations >>= fun known => (s.read header).map (usedAmong known) := rfl
  rw [hused, hdeclared]
  cases hread : s.read header with
  | error e => exact ⟨rfl, fun _ h => nomatch h⟩
  | ok text =>
    refine ⟨congrArg Except.ok (usedAmong_declarations text), fun text' h => ?_⟩
    rw [Except.ok.inj h]
    rfl

def ringHeader : List Char :=
  "#define SLOTS 8\nclass Ring final : Base \x7b\x7d;".toList

def ringHeaderFiles : SourceFiles where
  files := Files.Tree.read ⟨[(["src", "ring.h"], .file (ringHeader.map (·.toNat.toUInt8)))]⟩
  root := "src"

theorem ringHeader_used :
    "Ring" ∈ declarations ringHeader ∧ "Ring".toList ∈ identifiers ringHeader ∧
      ringHeaderFiles.read "ring.h" = .ok ringHeader ∧
      ringHeaderFiles.inspector.used "ring.h" "ring.h" = .ok (declarations ringHeader) := by
  have hword : "Ring".toList ∈ declaredNames ringHeader := by decide +kernel
  have hring : "Ring" ∈ declarations ringHeader :=
    Names.mem_ofList.mpr (List.mem_map.mpr ⟨"Ring".toList, hword, String.ofList_toList⟩)
  have hread : ringHeaderFiles.read "ring.h" = .ok ringHeader := by decide +kernel
  obtain ⟨hused, hdeclared⟩ := declarations_used.2 ringHeaderFiles "ring.h"
  exact ⟨hring, declarations_used.1 ringHeader "Ring" hring, hread, hused.trans (hdeclared _ hread)⟩

end BuildAdvisor.Symbols
