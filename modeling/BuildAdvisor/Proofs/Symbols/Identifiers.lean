import BuildAdvisor.Proofs.Text.Name
import BuildAdvisor.Symbols.SourceFiles

/-!
The names that occur in a text are its words, less those that begin otherwise than a name.

* `ends_identifier_eq_nil`, `head?_ends_identifier` — the pattern matches where a name begins, up
  to the end of the word, and nowhere else;
* `occurrencesFrom_within` — no match begins within a word;
* `captures_identifier`, `identifiers_eq` — the matches of a text, one word after the other;
* `usedAmong_exact` — which of the declared names a file uses.
-/

set_option autoImplicit false

namespace BuildAdvisor.Symbols

open BuildAdvisor.Text BuildAdvisor.Text.Pattern

/-! ## One match -/

section Match

variable {rounds : Nat} {p : Place}

theorem identifierPattern_eq :
    identifierPattern = seq wordEdge (seq (capture name) wordEdge) :=
  rfl

theorem ends_identifier_of_inWord (h : p.inWord = true) :
    ends rounds identifierPattern p = [] := by
  rw [identifierPattern_eq, ends, failsInWord_wordEdge h, List.flatMap_nil]

theorem ends_identifier_of_not_opensName (h : opensName p.rest = false) :
    ends rounds identifierPattern p = [] := by
  have hnone : ends rounds (seq (capture name) wordEdge) p = [] := by
    rw [ends, ends, ends_name_eq_nil h, List.map_nil, List.flatMap_nil]
  rw [identifierPattern_eq, ends, ends]
  split
  · rw [List.flatMap_singleton, hnone]
  · rw [List.flatMap_nil]

theorem head?_ends_identifier {run rest : List Char} (h : FirstRun p.rest run rest)
    (hopens : opensName run = true) (hrounds : p.rest.length ≤ rounds)
    (hout : p.inWord = false) :
    (ends rounds identifierPattern p).head? = some (p.behind run.length) := by
  have hne := ne_nil_of_opensName hopens
  have hstart : ends rounds wordEdge p = [p] :=
    if_pos (Place.atWordEdge_of_head (Place.head?_any_of_firstRun h hne) hout)
  have hend : ends rounds wordEdge (p.behind run.length) = [p.behind run.length] :=
    if_pos (Place.atWordEdge_advance h hne)
  rw [identifierPattern_eq, ends, hstart, List.flatMap_singleton,
    head?_ends_name failsInWord_wordEdge.goesOnFromWordEnd h hopens hrounds, hend, List.head?_cons]

end Match

/-! ## All matches -/

section Scan

variable {rounds : Nat} {before : Option Char} {run rest : List Char}

theorem occurrencesFrom_within {c : Char} (hc : isWord c = true)
    (hrun : ∀ d ∈ run, isWord d = true) :
    occurrencesFrom rounds identifierPattern 0 (some c) (run ++ rest) =
      occurrencesFrom rounds identifierPattern 0 (run.getLast?.or (some c)) rest := by
  induction run generalizing c with
  | nil => rfl
  | cons d run ih =>
    have hd := hrun d List.mem_cons_self
    have hwithin : (⟨some c, d :: (run ++ rest), 0, none⟩ : Place).inWord = true := by
      rw [Place.inWord, Option.any_some, List.head?_cons, Option.any_some, hc, hd, Bool.and_self]
    rw [List.cons_append, occurrencesFrom_cons_none (ends_identifier_of_inWord hwithin),
      ih hd fun e he => hrun e (List.mem_cons_of_mem d he), getLast?_cons_or]

theorem occurrencesFrom_word {text : List Char} (h : FirstRun text run rest) (hne : run ≠ [])
    (hopens : opensName run = false) :
    occurrencesFrom rounds identifierPattern 0 before text =
      occurrencesFrom rounds identifierPattern 0 (run.getLast?.or before) rest := by
  have hnone : ends rounds identifierPattern ⟨before, text, 0, none⟩ = [] :=
    ends_identifier_of_not_opensName (h.opensName_eq.trans hopens)
  obtain ⟨c, run, rfl⟩ := List.exists_cons_of_ne_nil hne
  rw [h.text_eq, List.cons_append] at hnone ⊢
  rw [occurrencesFrom_cons_none hnone, occurrencesFrom_within (h.word c List.mem_cons_self)
    fun d hd => h.word d (List.mem_cons_of_mem c hd), getLast?_cons_or]

theorem occurrencesFrom_name {text : List Char} (h : FirstRun text run rest)
    (hopens : opensName run = true) (hrounds : text.length ≤ rounds)
    (hout : (⟨before, text, 0, none⟩ : Place).inWord = false) :
    occurrencesFrom rounds identifierPattern 0 before text =
      Place.behind run.length ⟨before, text, 0, none⟩ ::
        occurrencesFrom rounds identifierPattern 0 (run.getLast?.or before) rest := by
  have hfirst : (ends rounds identifierPattern ⟨before, text, 0, none⟩).head? =
      some (Place.behind run.length ⟨before, text, 0, none⟩) :=
    head?_ends_identifier h hopens hrounds hout
  obtain ⟨c, run, rfl⟩ := List.exists_cons_of_ne_nil (ne_nil_of_opensName hopens)
  rw [h.text_eq, List.cons_append] at hfirst ⊢
  rw [occurrencesFrom_cons_some hfirst, Place.index_behind, List.length_cons, Nat.zero_add,
    Nat.add_sub_cancel, occurrencesFrom_skip, getLast?_cons_or]

end Scan

theorem captures_identifier {rounds : Nat} (text : List Char) (before : Option Char)
    (hrounds : text.length ≤ rounds)
    (hout : (⟨before, text, 0, none⟩ : Place).inWord = false) :
    (occurrencesFrom rounds identifierPattern 0 before text).filterMap Place.capturedText =
      (words text).filter opensName := by
  induction text using runs_induction generalizing before with
  | nil => rw [words_nil]; rfl
  | other c rest hc ih =>
    have hnone : ends rounds identifierPattern ⟨before, c :: rest, 0, none⟩ = [] :=
      ends_identifier_of_not_opensName (opensName_cons rest hc)
    rw [words_cons hc, occurrencesFrom_cons_none hnone]
    exact ih (some c) (Nat.le_of_succ_le hrounds) (Place.inWord_of_before rfl hc)
  | run text run rest hfirst hne ih =>
    have hlength : rest.length ≤ rounds := by
      rw [hfirst.text_eq, List.length_append] at hrounds
      omega
    have hlater := ih (run.getLast?.or before) hlength (Place.inWord_of_rest hfirst.right)
    rw [hfirst.words_eq hne]
    cases hopens : opensName run with
    | true =>
      have hcaptured := Place.capturedText_of_behind
        (p := ⟨before, text, 0, none⟩) (n := run.length) rfl
      rw [hfirst.text_eq, List.take_left, ← hfirst.text_eq] at hcaptured
      rw [occurrencesFrom_name hfirst hopens hrounds hout, List.filterMap_cons_some hcaptured,
        List.filter_cons_of_pos hopens, hlater]
    | false =>
      rw [occurrencesFrom_word hfirst hne hopens,
        List.filter_cons_of_neg (Bool.eq_false_iff.mp hopens), hlater]

theorem identifiers_eq (text : List Char) :
    identifiers text = (words text).filter opensName :=
  captures_identifier text none (Nat.le_refl _) rfl

theorem mem_identifiers_iff {text x : List Char} : x ∈ identifiers text ↔ NameIn text x := by
  rw [identifiers_eq, List.mem_filter, mem_words_iff, NameIn]

/-! ## Names that a file uses -/

theorem mem_usedAmong_iff {known : Names} {text : List Char} {x : String} :
    x ∈ usedAmong known text ↔ x ∈ known ∧ NameIn text x.toList := by
  rw [usedAmong, Names.mem_ofList, List.mem_filter, List.mem_map]
  constructor
  · rintro ⟨⟨run, hrun, rfl⟩, hknown⟩
    rw [String.toList_ofList]
    exact ⟨Std.ExtTreeSet.contains_iff_mem.mp hknown, mem_identifiers_iff.mp hrun⟩
  · rintro ⟨hknown, hname⟩
    exact ⟨⟨x.toList, mem_identifiers_iff.mpr hname, String.ofList_toList⟩,
      Std.ExtTreeSet.contains_iff_mem.mpr hknown⟩

/-- A file uses those of the known names that are words of its text: a name that stands only
within longer words is not used. -/
theorem usedAmong_exact (s : SourceFiles) (dependent header : String) (known : Names)
    {text : List Char} (h : s.read dependent = .ok text) :
    ∃ names, s.inspector.usedAmong dependent header known = .ok names ∧
      (∀ x, x ∈ names ↔ x ∈ known ∧ WordIn text x.toList ∧ opensName x.toList = true) ∧
      (∀ x ∈ names, x ∈ known) ∧
      ∀ x : String,
        (∀ before after, text = before ++ x.toList ++ after →
          before.getLast?.any isWord = true ∨ after.head?.any isWord = true) →
        x ∉ names := by
  have hused : s.inspector.usedAmong dependent header known = .ok (usedAmong known text) := by
    have hread : s.inspector.usedAmong dependent header known =
        (s.read dependent).map (usedAmong known) := rfl
    rw [hread, h]
    rfl
  refine ⟨usedAmong known text, hused, fun x => mem_usedAmong_iff,
    fun x hx => (mem_usedAmong_iff.mp hx).1, fun x hlonger hx => ?_⟩
  obtain ⟨-, ⟨before, after, hrun⟩, -⟩ := mem_usedAmong_iff.mp hx
  rcases hlonger before after hrun.text_eq with hleft | hright
  · rw [any_eq_false_of_forall hrun.left] at hleft
    cases hleft
  · rw [any_eq_false_of_forall hrun.right] at hright
    cases hright

def ringText : List Char :=
  "Ring ring = 9Circle + RingBuffer;".toList

def ringFiles : SourceFiles where
  files := Files.Tree.read ⟨[(["src", "ring.cpp"], .file (ringText.map (·.toNat.toUInt8)))]⟩
  root := "src"

/-- A name behind a digit is not used. -/
theorem ringFiles_usedAmong :
    ringFiles.read "ring.cpp" = .ok ringText ∧
      ∃ names, ringFiles.inspector.usedAmong "ring.cpp" "ring.h"
          (Names.ofList ["Circle", "Ring", "Square"]) = .ok names ∧
        "Ring" ∈ names ∧ "Circle" ∉ names := by
  have hread : ringFiles.read "ring.cpp" = .ok ringText := by decide +kernel
  obtain ⟨names, hused, hnames, -, -⟩ := usedAmong_exact ringFiles "ring.cpp" "ring.h"
    (Names.ofList ["Circle", "Ring", "Square"]) hread
  have hring : WordIn ringText "Ring".toList := mem_words_iff.mp (by decide +kernel)
  have hcircle : ¬WordIn ringText "Circle".toList := fun h =>
    absurd (mem_words_iff.mpr h) (by decide +kernel)
  exact ⟨hread, names, hused, (hnames _).mpr ⟨by simp, hring, by decide +kernel⟩,
    fun h => hcircle ((hnames _).mp h).2.1⟩

end BuildAdvisor.Symbols
