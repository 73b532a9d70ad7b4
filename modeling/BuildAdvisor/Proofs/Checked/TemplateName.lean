import BuildAdvisor.Proofs.Checked.Text
import BuildAdvisor.Proofs.Template.StrayBrackets

/-!
Names of templates, cut and counted by a machine of any width.

* `closeAt` — the search for the end of a list, among the characters with their positions;
* `piecesOf` — the pieces of a list; `Overflow` says what becomes of a count of open brackets that
  leaves its range, which is the one count that may do so in a text that memory holds;
* `normalName` — normalization with the positions of the cuts;
* `closeAt_eq`, `piecesFrom_eq`, `generalizeAt_eq` — each step has a result, and it is that of the
  step on characters, if the count wraps around or keeps to its range (`BracketsFit`);
* `normalName_eq`, `normalName_overflow` — so has the whole, while a count that is tested stops at
  a list in which it leaves its range.

Positions, and counts of angle brackets, are tested against a `limit` that may be the length of the
text: where they stay below it, they stay within any machine that holds the text.
-/

set_option autoImplicit false

namespace BuildAdvisor.Checked

open String (utf8Len)
open Template (ArgumentList argumentList? closeList? closeList?_cons closeList?_open compact
  generalize joinArguments nesting peak peak_nonneg splitArguments splitFrom trough trough_nonpos)

/-! ## Positions -/

/-- The characters of a text that begins at `position`, each with the position where it begins. -/
def indexed (position : Nat) : List Char → List (Nat × Char)
  | [] => []
  | c :: rest => (position, c) :: indexed (position + c.utf8Size) rest

def indexOf? (c : Char) (text : List Char) : Option Nat :=
  ((indexed 0 text).find? fun entry => entry.2 == c).map Prod.fst

theorem indexed_append (position : Nat) (u v : List Char) :
    indexed position (u ++ v) = indexed position u ++ indexed (position + utf8Len u) v := by
  induction u generalizing position with
  | nil => rfl
  | cons c u ih =>
    rw [List.cons_append, indexed, ih, indexed, List.cons_append, String.utf8Len_cons, Nat.add_assoc,
      Nat.add_comm c.utf8Size]

theorem mem_indexed {position : Nat} {text : List Char} {entry : Nat × Char}
    (h : entry ∈ indexed position text) :
    entry.1 < position + utf8Len text ∧ entry.2 ∈ text := by
  induction text generalizing position with
  | nil => cases h
  | cons c rest ih =>
    have hc := c.utf8Size_pos
    rw [String.utf8Len_cons]
    rcases List.mem_cons.mp h with rfl | h
    · refine ⟨?_, List.mem_cons_self⟩
      change position < _
      omega
    · obtain ⟨hlt, hmem⟩ := ih h
      exact ⟨by omega, List.mem_cons_of_mem c hmem⟩

theorem dropWhile_indexed (before rest : List Char) :
    (indexed 0 (before ++ rest)).dropWhile (fun entry => decide (entry.1 < utf8Len before)) =
      indexed (utf8Len before) rest := by
  have hbefore : ∀ entry ∈ indexed 0 before, decide (entry.1 < utf8Len before) = true := by
    intro entry hm
    have hlt := (mem_indexed hm).1
    rw [Nat.zero_add] at hlt
    exact decide_eq_true hlt
  rw [indexed_append, List.dropWhile_append_of_pos hbefore, Nat.zero_add]
  cases rest with
  | nil => rfl
  | cons c rest => exact List.dropWhile_cons_of_neg (by simp)

theorem find?_indexed_of_not_mem {c : Char} {text : List Char} (h : c ∉ text) (position : Nat) :
    (indexed position text).find? (fun entry => entry.2 == c) = none := by
  rw [List.find?_eq_none]
  intro entry hm he
  exact h (beq_iff_eq.mp he ▸ (mem_indexed hm).2)

theorem indexOf?_of_not_mem {c : Char} {text : List Char} (h : c ∉ text) :
    indexOf? c text = none := by
  rw [indexOf?, find?_indexed_of_not_mem h, Option.map_none]

theorem indexOf?_append_cons {c : Char} {before : List Char} (h : c ∉ before) (rest : List Char) :
    indexOf? c (before ++ c :: rest) = some (utf8Len before) := by
  rw [indexOf?, indexed_append, List.find?_append, find?_indexed_of_not_mem h, Option.none_or,
    Nat.zero_add, indexed, List.find?_cons_of_pos (by simp), Option.map_some]

/-! ## Blanks -/

/-- `out` is the text written so far, which is cut where the blanks at its end begin. -/
def compactFrom (after : Bool) (out : List Char) : List Char → Except Fault (List Char)
  | [] => pure out
  | c :: rest =>
    if Template.isPunctuation c then do
      let (kept, _) ← cutAt (utf8Len (out.rdropWhile Text.isBlank)) out
      compactFrom true (kept ++ [c]) rest
    else if Text.isBlank c then compactFrom after (if after then out else out ++ [c]) rest
    else compactFrom false (out ++ [c]) rest

theorem compactFrom_eq (after : Bool) (out rest : List Char) :
    compactFrom after out rest = pure (Template.compactFrom after out.reverse rest) := by
  induction rest generalizing after out with
  | nil => rw [compactFrom, Template.compactFrom, List.reverse_reverse]
  | cons c rest ih =>
    rw [compactFrom, Template.compactFrom]
    split
    next =>
      obtain ⟨blanks, hblanks⟩ : out.rdropWhile Text.isBlank <+: out := List.rdropWhile_prefix _ _
      have hcut := cutAt_append (out.rdropWhile Text.isBlank) blanks
      rw [hblanks] at hcut
      simp only [hcut, pure_bind]
      rw [ih, List.reverse_append, List.rdropWhile, List.reverse_reverse]
      rfl
    next =>
      split
      next =>
        rw [ih]
        cases after with
        | true => rfl
        | false => simp
      next =>
        rw [ih, List.reverse_append]
        rfl

theorem compactFrom_trim (name : List Char) :
    compactFrom false [] (Text.trim name) = pure (compact name) :=
  compactFrom_eq false [] (Text.trim name)

/-! ## The end of a list -/

def closeAmong (limit : Nat) : List (Nat × Char) → Nat → Except Fault (Option Nat)
  | [], _ => pure none
  | (position, c) :: rest, depth =>
    if c = '<' then do
      let depth ← increment limit depth
      closeAmong limit rest depth
    else if c = '>' then do
      let depth ← subtract depth 1
      if depth = 0 then pure (some position) else closeAmong limit rest depth
    else closeAmong limit rest depth

def closeAt (limit : Nat) (text : List Char) (opening : Nat) : Except Fault (Option Nat) :=
  closeAmong limit ((indexed 0 text).dropWhile fun entry => decide (entry.1 < opening)) 0

theorem closeAmong_eq {limit : Nat} (start : Nat) (rest : List Char) {depth : Nat}
    (inner : List Char) (h : depth + rest.length + 1 < limit) :
    closeAmong limit (indexed (start + utf8Len inner.reverse) rest) (depth + 1) =
      pure ((closeList? depth inner rest).map fun l => start + utf8Len l.1) := by
  induction rest generalizing depth inner with
  | nil => rfl
  | cons c rest ih =>
    have hnext : start + utf8Len inner.reverse + c.utf8Size =
        start + utf8Len (c :: inner).reverse := by
      simp [Nat.add_assoc]
    rw [List.length_cons] at h
    rw [indexed, hnext]
    by_cases hclose : c = '>'
    · subst hclose
      -- The list is still open, so there is a bracket to take back.
      have hopened : 1 ≤ depth + 1 := Nat.le_add_left _ _
      rw [closeAmong, if_neg (by decide), if_pos rfl, subtract_eq hopened, pure_bind,
        Nat.add_sub_cancel]
      cases depth with
      | zero => rfl
      | succ depth => exact ih ('>' :: inner) (by omega)
    · by_cases hopen : c = '<'
      · subst hopen
        have hroom : depth + 1 + 1 < limit := by omega
        rw [closeAmong, if_pos rfl, increment_eq hroom, pure_bind, closeList?_open]
        exact ih ('<' :: inner) (by omega)
      · rw [closeAmong, if_neg hopen, if_neg hclose, closeList?_cons hopen hclose]
        exact ih (c :: inner) (by omega)

theorem length_le_utf8Len (text : List Char) : text.length ≤ utf8Len text := by
  induction text with
  | nil => exact Nat.zero_le _
  | cons c rest ih =>
    have hc := c.utf8Size_pos
    rw [List.length_cons, String.utf8Len_cons]
    omega

theorem closeAt_eq {limit : Nat} {before rest : List Char}
    (h : utf8Len (before ++ '<' :: rest) < limit) :
    closeAt limit (before ++ '<' :: rest) (utf8Len before) =
      pure ((closeList? 0 [] rest).map fun l => utf8Len (before ++ '<' :: l.1)) := by
  have hlength := length_le_utf8Len (before ++ '<' :: rest)
  rw [List.length_append, List.length_cons] at hlength
  have hfirst : 0 + 1 < limit := by omega
  have hroom : 0 + rest.length + 1 < limit := by omega
  have hscan := closeAmong_eq (utf8Len before + '<'.utf8Size) rest [] hroom
  rw [List.reverse_nil, String.utf8Len_nil, Nat.add_zero] at hscan
  rw [closeAt, dropWhile_indexed, indexed, closeAmong, if_pos rfl, increment_eq hfirst, pure_bind,
    hscan]
  congr 3
  funext l
  rw [String.utf8Len_append, String.utf8Len_cons, Nat.add_assoc, Nat.add_comm (utf8Len l.1)]

/-! ## Pieces -/

/-- In a signed counter of 32 bits. -/
def bracketLimit : Nat := UInt32.size / 2

/-- What becomes of a sum beyond the range of a signed counter of 32 bits. -/
inductive Overflow where
  | fault
  | wrap

def Overflow.add (overflow : Overflow) (m n : Int) : Except Fault Int :=
  match overflow with
  | .fault => addSigned bracketLimit m n
  | .wrap => pure ((m + n).bmod UInt32.size)

/-- `start` is where the piece begins that is being read. -/
def piecesFrom (overflow : Overflow) (limit : Nat) (text : List Char) :
    List (Nat × Char) → Nat → Int → Except Fault (List (List Char))
  | [], start, _ => do
    let (_, piece) ← cutAt start text
    pure [piece]
  | (position, c) :: rest, start, depth =>
    if c = ',' ∧ depth = 0 then do
      let piece ← slice start position text
      let next ← increment limit position
      let pieces ← piecesFrom overflow limit text rest next depth
      pure (piece :: pieces)
    else do
      let depth ← overflow.add depth (nesting c)
      piecesFrom overflow limit text rest start depth

def piecesOf (overflow : Overflow) (limit : Nat) (text : List Char) :
    Except Fault (List (List Char)) :=
  piecesFrom overflow limit text (indexed 0 text) 0 0

/-- All brackets, of any kind and whether they open or close. -/
def brackets (text : List Char) : Nat :=
  text.countP fun c => nesting c != 0

/-- The numbers that a signed counter of 32 bits has. -/
def InCount (n : Int) : Prop :=
  -(bracketLimit : Int) ≤ n ∧ n < bracketLimit

/-- A count of open brackets that begins a text at `depth` has a place for each number on the
way. -/
def BracketsFit (depth : Int) (text : List Char) : Prop :=
  -(bracketLimit : Int) ≤ depth + trough text ∧ depth + peak text < bracketLimit

instance (depth : Int) (text : List Char) : Decidable (BracketsFit depth text) :=
  inferInstanceAs (Decidable (_ ∧ _))

theorem bracketsFit_nil {depth : Int} : BracketsFit depth [] ↔ InCount depth := by
  rw [BracketsFit, InCount, trough, peak, Int.add_zero]

theorem bracketsFit_cons {depth : Int} {c : Char} {rest : List Char} :
    BracketsFit depth (c :: rest) ↔ InCount depth ∧ BracketsFit (depth + nesting c) rest := by
  have hlow := trough_nonpos rest
  have hhigh := peak_nonneg rest
  rw [BracketsFit, BracketsFit, InCount, trough, peak]
  omega

theorem BracketsFit.inCount {depth : Int} {text : List Char} (h : BracketsFit depth text) :
    InCount depth := by
  cases text with
  | nil => exact bracketsFit_nil.mp h
  | cons c rest => exact (bracketsFit_cons.mp h).1

theorem peak_le_brackets (text : List Char) :
    -(brackets text : Int) ≤ trough text ∧ peak text ≤ brackets text := by
  induction text with
  | nil => exact ⟨Int.le_refl 0, Int.le_refl 0⟩
  | cons c rest ih =>
    have hcount : brackets rest + (nesting c).natAbs ≤ brackets (c :: rest) := by
      have hcases : nesting c = 0 ∨ (nesting c).natAbs = 1 := by
        rw [nesting]
        split_ifs <;> decide
      rw [brackets, brackets, List.countP_cons]
      rcases hcases with h | h
      · rw [h]
        exact Nat.le_add_right _ _
      · have hne : (nesting c != 0) = true := by
          rw [bne_iff_ne]
          omega
        rw [if_pos hne, h]
    rw [peak, trough]
    omega

theorem bracketsFit_of_brackets_lt {text : List Char} (h : brackets text < bracketLimit) :
    BracketsFit 0 text := by
  have hle := peak_le_brackets text
  rw [BracketsFit]
  omega

theorem inCount_toInt (m : Int32) : InCount m.toInt :=
  ⟨m.le_toInt, m.toInt_lt⟩

theorem toInt_eq_zero_iff {m : Int32} : m.toInt = 0 ↔ m = 0 :=
  Int32.toInt_inj (y := 0)

theorem toInt_add_ofInt (m : Int32) (n : Int) :
    (m + Int32.ofInt n).toInt = (m.toInt + n).bmod UInt32.size := by
  rw [Int32.toInt_add, Int32.toInt_ofInt]
  exact Int.add_bmod_bmod

theorem toInt_add_of_inCount {m : Int32} {n : Int} (h : InCount (m.toInt + n)) :
    (m + Int32.ofInt n).toInt = m.toInt + n := by
  have hsize : UInt32.size = 2 * bracketLimit := rfl
  rw [InCount] at h
  rw [toInt_add_ofInt, Int.bmod_eq_of_le (by omega) (by omega)]

theorem Overflow.add_eq {overflow : Overflow} {m : Int32} {n : Int}
    (h : overflow = .wrap ∨ InCount (m.toInt + n)) :
    overflow.add m.toInt n = pure (m + Int32.ofInt n).toInt := by
  cases overflow with
  | fault =>
    have hrange := h.resolve_left Overflow.noConfusion
    rw [toInt_add_of_inCount hrange]
    exact if_pos hrange
  | wrap =>
    rw [toInt_add_ofInt]
    rfl

theorem Overflow.add_fault {m n : Int} (h : ¬ InCount (m + n)) :
    Overflow.fault.add m n = .error .overflow :=
  if_neg h

section Pieces

variable {overflow : Overflow} {limit : Nat} {text : List Char}

/-- A piece is cut out between what was done before it and the comma behind it. -/
theorem piecesFrom_comma {done piece rest : List Char} (hlen : utf8Len text < limit)
    (htext : text = done ++ piece ++ ',' :: rest) :
    piecesFrom overflow limit text (indexed (utf8Len (done ++ piece)) (',' :: rest))
        (utf8Len done) 0 =
      (do let pieces ← piecesFrom overflow limit text
            (indexed (utf8Len (done ++ piece ++ [','])) rest) (utf8Len (done ++ piece ++ [','])) 0
          pure (piece :: pieces)) := by
  have hnext : utf8Len (done ++ piece) + ','.utf8Size = utf8Len (done ++ piece ++ [',']) :=
    (utf8Len_concat rfl _).symm
  have hbehind : utf8Len (done ++ piece ++ [',']) < limit := by
    rw [htext, List.append_cons, String.utf8Len_append] at hlen
    omega
  have hslice : slice (utf8Len done) (utf8Len (done ++ piece)) text = pure piece := by
    rw [htext]
    exact slice_append ..
  rw [indexed, piecesFrom, if_pos ⟨rfl, rfl⟩, hslice, pure_bind, increment_utf8Len rfl hbehind,
    pure_bind, hnext]

theorem piecesFrom_cons {done piece rest : List Char} {c : Char} {depth : Int32}
    (hcomma : ¬ (c = ',' ∧ depth = 0)) :
    piecesFrom overflow limit text (indexed (utf8Len (done ++ piece)) (c :: rest)) (utf8Len done)
        depth.toInt =
      (do let next ← overflow.add depth.toInt (nesting c)
          piecesFrom overflow limit text (indexed (utf8Len (done ++ (piece ++ [c]))) rest)
            (utf8Len done) next) := by
  have hnext : utf8Len (done ++ piece) + c.utf8Size = utf8Len (done ++ (piece ++ [c])) := by
    simp [Nat.add_assoc]
  rw [indexed, piecesFrom, if_neg (by rwa [toInt_eq_zero_iff]), hnext]

/-- What is cut out is what has been read.  The count only decides at which commas that is done. -/
theorem piecesFrom_eq (hlen : utf8Len text < limit) (rest done piece : List Char) (depth : Int32)
    (htext : text = done ++ piece ++ rest)
    (hfit : overflow = .wrap ∨ BracketsFit depth.toInt rest) :
    piecesFrom overflow limit text (indexed (utf8Len (done ++ piece)) rest) (utf8Len done)
        depth.toInt = pure (splitFrom depth piece.reverse rest) := by
  induction rest generalizing done piece depth with
  | nil =>
    rw [List.append_nil] at htext
    rw [indexed, piecesFrom, htext, cutAt_append, splitFrom, List.reverse_reverse]
    rfl
  | cons c rest ih =>
    have hfit' := hfit.imp_right fun h => (bracketsFit_cons.mp h).2
    by_cases hcomma : c = ',' ∧ depth = 0
    · obtain ⟨rfl, rfl⟩ := hcomma
      have hrest := ih (done ++ piece ++ [',']) [] 0
        (by rw [htext, List.append_nil, ← List.append_cons]) hfit'
      rw [List.append_nil] at hrest
      rw [splitFrom, if_pos ⟨rfl, rfl⟩, List.reverse_reverse, Int32.toInt_zero,
        piecesFrom_comma hlen htext, ← Int32.toInt_zero, hrest, pure_bind]
      rfl
    · have hcount := hfit'.imp_right BracketsFit.inCount
      have hrest := ih done (piece ++ [c]) (depth + Int32.ofInt (nesting c)) (by simp [htext])
        (hfit'.imp_right fun h => by rwa [toInt_add_of_inCount h.inCount])
      rw [List.reverse_append] at hrest
      rw [piecesFrom_cons hcomma, Overflow.add_eq hcount, pure_bind, hrest, splitFrom,
        if_neg hcomma]
      rfl

/-- A count that is tested does not pass the place where it leaves its range. -/
theorem piecesFrom_overflow (hlen : utf8Len text < limit) (rest done piece : List Char)
    (depth : Int32) (htext : text = done ++ piece ++ rest)
    (hfit : ¬ BracketsFit depth.toInt rest) :
    piecesFrom .fault limit text (indexed (utf8Len (done ++ piece)) rest) (utf8Len done)
        depth.toInt = .error .overflow := by
  induction rest generalizing done piece depth with
  | nil => exact absurd (bracketsFit_nil.mpr (inCount_toInt depth)) hfit
  | cons c rest ih =>
    have hfit' : ¬ BracketsFit (depth.toInt + nesting c) rest := fun h =>
      hfit (bracketsFit_cons.mpr ⟨inCount_toInt depth, h⟩)
    by_cases hcomma : c = ',' ∧ depth = 0
    · obtain ⟨rfl, rfl⟩ := hcomma
      have hrest := ih (done ++ piece ++ [',']) [] 0
        (by rw [htext, List.append_nil, ← List.append_cons]) hfit'
      rw [List.append_nil, Int32.toInt_zero] at hrest
      rw [Int32.toInt_zero, piecesFrom_comma hlen htext, hrest]
      rfl
    · rw [piecesFrom_cons hcomma]
      by_cases hrange : InCount (depth.toInt + nesting c)
      · have hrest := ih done (piece ++ [c]) (depth + Int32.ofInt (nesting c)) (by simp [htext])
          (by rwa [toInt_add_of_inCount hrange])
        rw [Overflow.add_eq (.inr hrange), pure_bind, hrest]
      · rw [Overflow.add_fault hrange]
        rfl

theorem piecesOf_eq (hlen : utf8Len text < limit) (hfit : overflow = .wrap ∨ BracketsFit 0 text) :
    piecesOf overflow limit text = pure (splitArguments text) :=
  piecesFrom_eq hlen text [] [] 0 rfl hfit

theorem piecesOf_overflow (hlen : utf8Len text < limit) (hfit : ¬ BracketsFit 0 text) :
    piecesOf .fault limit text = .error .overflow :=
  piecesFrom_overflow hlen text [] [] 0 rfl hfit

end Pieces

/-! ## Names -/

def generalizeAt (overflow : Overflow) (limit : Nat) (name : List Char) (opening closing : Nat) :
    Except Fault (List Char) := do
  let next ← increment limit opening
  let inner ← slice next closing name
  if inner.isEmpty then pure name
  else
    let pieces ← piecesOf overflow limit inner
    let (before, _) ← cutAt opening name
    let behind ← increment limit closing
    let (_, after) ← cutAt behind name
    pure (before ++ '<' :: joinArguments (pieces.map generalize) ++ '>' :: after)

def normalChars (overflow : Overflow) (limit : Nat) (name : List Char) :
    Except Fault (List Char) := do
  let name ← compactFrom false [] (Text.trim name)
  match indexOf? '<' name with
  | none => pure name
  | some opening =>
    match ← closeAt limit name opening with
    | none => pure name
    | some closing => generalizeAt overflow limit name opening closing

def normalName (overflow : Overflow) (limit : Nat) (name : String) : Except Fault String := do
  let name ← normalChars overflow limit name.toList
  pure (String.ofList name)

/-- The cuts around the list of a name, whose brackets are stored in one byte each. -/
structure ListCuts (limit : Nat) (name before inner after : List Char) : Prop where
  next_eq : increment limit (utf8Len before) = pure (utf8Len (before ++ ['<']))
  inner_eq : slice (utf8Len (before ++ ['<'])) (utf8Len (before ++ ['<'] ++ inner)) name =
    pure inner
  before_eq : cutAt (utf8Len before) name = pure (before, ['<'] ++ inner ++ ['>'] ++ after)
  behind_eq : increment limit (utf8Len (before ++ ['<'] ++ inner)) =
    pure (utf8Len (before ++ ['<'] ++ inner ++ ['>']))
  after_eq : cutAt (utf8Len (before ++ ['<'] ++ inner ++ ['>'])) name =
    pure (before ++ ['<'] ++ inner ++ ['>'], after)

theorem listCuts {limit : Nat} {name before inner after : List Char}
    (hname : name = before ++ ['<'] ++ inner ++ ['>'] ++ after) (h : utf8Len name < limit) :
    ListCuts limit name before inner after := by
  have hlen : utf8Len (before ++ ['<'] ++ inner ++ ['>']) < limit := by
    rw [hname, String.utf8Len_append] at h
    omega
  have hbehind : increment limit (utf8Len (before ++ ['<'] ++ inner)) =
      pure (utf8Len (before ++ ['<'] ++ inner ++ ['>'])) := increment_utf8Len rfl hlen
  rw [String.utf8Len_append, String.utf8Len_append] at hlen
  refine ⟨increment_utf8Len rfl (by omega), ?_, ?_, hbehind, ?_⟩
  · rw [hname, List.append_assoc _ ['>'] after]
    exact slice_append ..
  · rw [hname, ← cutAt_append before]
    simp only [List.append_assoc]
  · rw [hname, cutAt_append]

section List

variable {overflow : Overflow} {limit : Nat} {before inner after : List Char}

theorem generalizeAt_eq_pieces
    (hlen : utf8Len (before ++ '<' :: (inner ++ '>' :: after)) < limit) :
    generalizeAt overflow limit (before ++ '<' :: (inner ++ '>' :: after)) (utf8Len before)
        (utf8Len (before ++ '<' :: inner)) =
      if inner.isEmpty then pure (before ++ '<' :: (inner ++ '>' :: after))
      else (do
        let pieces ← piecesOf overflow limit inner
        pure (before ++ '<' :: joinArguments (pieces.map generalize) ++ '>' :: after)) := by
  have hcuts : ListCuts limit (before ++ '<' :: (inner ++ '>' :: after)) before inner after :=
    listCuts (by simp) hlen
  rw [List.append_cons before '<' inner, generalizeAt, hcuts.next_eq, pure_bind, hcuts.inner_eq,
    pure_bind]
  simp only [hcuts.before_eq, hcuts.behind_eq, hcuts.after_eq, pure_bind]

theorem utf8Len_inner_lt (hlen : utf8Len (before ++ '<' :: (inner ++ '>' :: after)) < limit) :
    utf8Len inner < limit := by
  rw [String.utf8Len_append, String.utf8Len_cons, String.utf8Len_append] at hlen
  omega

theorem generalizeAt_eq (hlen : utf8Len (before ++ '<' :: (inner ++ '>' :: after)) < limit)
    (hfit : overflow = .wrap ∨ BracketsFit 0 inner) :
    generalizeAt overflow limit (before ++ '<' :: (inner ++ '>' :: after)) (utf8Len before)
        (utf8Len (before ++ '<' :: inner)) =
      pure (if inner.isEmpty then before ++ '<' :: (inner ++ '>' :: after)
        else before ++ '<' :: joinArguments ((splitArguments inner).map generalize) ++
          '>' :: after) := by
  rw [generalizeAt_eq_pieces hlen, piecesOf_eq (utf8Len_inner_lt hlen) hfit, pure_bind]
  exact (apply_ite pure _ _ _).symm

theorem generalizeAt_overflow (hlen : utf8Len (before ++ '<' :: (inner ++ '>' :: after)) < limit)
    (hfit : ¬ BracketsFit 0 inner) :
    generalizeAt .fault limit (before ++ '<' :: (inner ++ '>' :: after)) (utf8Len before)
        (utf8Len (before ++ '<' :: inner)) = .error .overflow := by
  have hne : ¬ inner.isEmpty = true := by
    rw [List.isEmpty_iff]
    rintro rfl
    exact hfit (by decide)
  rw [generalizeAt_eq_pieces hlen, if_neg hne, piecesOf_overflow (utf8Len_inner_lt hlen) hfit]
  rfl

end List

/-- The open brackets of the list of a name stay within their count, if it has a list. -/
def ListFits (name : List Char) : Prop :=
  ∀ l ∈ argumentList? (compact name), BracketsFit 0 l.inner

instance (name : List Char) : Decidable (ListFits name) :=
  inferInstanceAs (Decidable (∀ l ∈ argumentList? (compact name), _))

theorem brackets_compact (name : List Char) : brackets (compact name) = brackets name := by
  have hkeep : ∀ c, Text.isBlank c = true → (nesting c != 0) = false := by
    intro c hc
    rw [Template.nesting_of_isPlain (Template.isPlain_of_isBlank hc)]
    rfl
  rw [brackets, brackets, List.countP_eq_length_filter, List.countP_eq_length_filter,
    Template.filter_compact hkeep]

theorem listFits_of_brackets_lt {name : List Char} (h : brackets name < bracketLimit) :
    ListFits name := by
  intro l hl
  have hinfix : l.inner <:+: compact name :=
    ⟨l.before ++ ['<'], '>' :: l.after, by simp [Template.eq_of_mem_argumentList? hl]⟩
  have hle : brackets l.inner ≤ brackets (compact name) := hinfix.sublist.countP_le
  rw [brackets_compact] at hle
  exact bracketsFit_of_brackets_lt (hle.trans_lt h)

section Names

variable {overflow : Overflow} {limit : Nat} {name : List Char}

theorem normalChars_of_none (hlen : utf8Len name < limit)
    (h : argumentList? (compact name) = none) :
    normalChars overflow limit name = pure (compact name) := by
  have hcompact := (String.utf8Len_le_of_sublist (Template.compact_sublist name)).trans_lt hlen
  rw [normalChars, compactFrom_trim, pure_bind]
  by_cases hmem : '<' ∈ compact name
  · obtain ⟨before, rest, htext, hbefore⟩ := List.eq_append_cons_of_mem hmem
    rw [htext] at h hcompact ⊢
    rw [Template.argumentList?_append_cons hbefore, Option.map_eq_none_iff] at h
    rw [indexOf?_append_cons hbefore]
    simp only [closeAt_eq hcompact, h, Option.map_none, pure_bind]
  · rw [indexOf?_of_not_mem hmem]

theorem normalChars_of_some {l : ArgumentList} (hlen : utf8Len name < limit)
    (h : argumentList? (compact name) = some l) :
    normalChars overflow limit name =
      generalizeAt overflow limit (compact name) (utf8Len l.before)
        (utf8Len (l.before ++ '<' :: l.inner)) := by
  have hcompact := (String.utf8Len_le_of_sublist (Template.compact_sublist name)).trans_lt hlen
  rw [normalChars, compactFrom_trim, pure_bind]
  by_cases hmem : '<' ∈ compact name
  · obtain ⟨before, rest, htext, hbefore⟩ := List.eq_append_cons_of_mem hmem
    rw [htext] at h hcompact ⊢
    rw [Template.argumentList?_append_cons hbefore] at h
    obtain ⟨⟨inner, after⟩, hclose, rfl⟩ := Option.map_eq_some_iff.mp h
    rw [indexOf?_append_cons hbefore]
    simp only [closeAt_eq hcompact, hclose, Option.map_some, pure_bind]
  · rw [Template.argumentList?_of_not_mem hmem] at h
    cases h

theorem normalChars_eq (hlen : utf8Len name < limit) (hfit : overflow = .wrap ∨ ListFits name) :
    normalChars overflow limit name = pure (Template.normalizeChars name) := by
  have hcompact := (String.utf8Len_le_of_sublist (Template.compact_sublist name)).trans_lt hlen
  cases hlist : argumentList? (compact name) with
  | none =>
    rw [normalChars_of_none hlen hlist]
    simp only [Template.normalizeChars, hlist]
  | some l =>
    have htext := Template.eq_of_mem_argumentList? hlist
    have hlist' := generalizeAt_eq (htext ▸ hcompact) (hfit.imp_right fun h => h l hlist)
    rw [← htext] at hlist'
    rw [normalChars_of_some hlen hlist, hlist']
    simp only [Template.normalizeChars, hlist]

theorem normalChars_overflow (hlen : utf8Len name < limit) (hfit : ¬ ListFits name) :
    normalChars .fault limit name = .error .overflow := by
  have hcompact := (String.utf8Len_le_of_sublist (Template.compact_sublist name)).trans_lt hlen
  obtain ⟨l, hlist, hl⟩ : ∃ l, l ∈ argumentList? (compact name) ∧ ¬ BracketsFit 0 l.inner := by
    by_contra hnone
    exact hfit fun l hl => by_contra fun hnot => hnone ⟨l, hl, hnot⟩
  have htext := Template.eq_of_mem_argumentList? hlist
  rw [normalChars_of_some hlen hlist, htext]
  exact generalizeAt_overflow (htext ▸ hcompact) hl

end Names

section Strings

variable {overflow : Overflow} {limit : Nat} {name : String}

theorem utf8Len_toList (name : String) : utf8Len name.toList = name.utf8ByteSize := by
  rw [← String.utf8ByteSize_ofList, String.ofList_toList]

theorem normalName_eq (hlen : name.utf8ByteSize < limit)
    (hfit : overflow = .wrap ∨ ListFits name.toList) :
    normalName overflow limit name = pure (Template.normalize name) := by
  rw [normalName, normalChars_eq (utf8Len_toList name ▸ hlen) hfit, pure_bind, Template.normalize]

theorem normalName_overflow (hlen : name.utf8ByteSize < limit) (hfit : ¬ ListFits name.toList) :
    normalName .fault limit name = .error .overflow := by
  rw [normalName, normalChars_overflow (utf8Len_toList name ▸ hlen) hfit]
  rfl

end Strings

end BuildAdvisor.Checked
