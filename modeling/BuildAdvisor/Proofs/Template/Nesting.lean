import BuildAdvisor.Proofs.Template.Compaction

/-!
Properly nested brackets, and what the two scanners of a name make of them.

* `Nested` — text whose brackets of the three kinds pair up; `nestedFrom` decides it with a stack
  (`nested_iff`);
* `nested_compact` — compaction takes no bracket away;
* `balance`, `peak`, `trough` — how many brackets a text leaves open, and at most and at least on the
  way; nested text leaves none open and closes none too many (`Nested.balance_eq`,
  `Nested.trough_eq`), and compaction keeps the peak (`peak_compact`);
* `IsArgument` — nested text whose commas stand within brackets; every nested text is a list of
  arguments (`exists_arguments`);
* `closeList?_nested` — the scanner that counts angle brackets alone passes over nested text;
* `splitFrom_nested`, `splitFrom_argument` — so does the scanner that counts all three kinds, within
  a bracket or without commas, as long as no more are open than its count tells from none;
* `splitArguments_joinArguments` — hence the arguments that were joined are found again, and an
  argument is nested text that the scanner leaves in one piece (`isArgument_iff`);
* `exists_list` — the first `<` of nested text opens a nested list.
-/

set_option autoImplicit false

namespace BuildAdvisor.Template

open BuildAdvisor.Text (isBlank)

/-! ## Brackets -/

/-- The bracket that closes an opening one. -/
def closing? (c : Char) : Option Char :=
  if c = '<' then some '>'
  else if c = '(' then some ')'
  else if c = '[' then some ']'
  else none

def isClosing (c : Char) : Bool :=
  c == '>' || c == ')' || c == ']'

/-- No bracket of any kind. -/
def isPlain (c : Char) : Bool :=
  (closing? c).isNone && !isClosing c

theorem closing?_eq_some {o c : Char} (h : closing? o = some c) :
    o = '<' ∧ c = '>' ∨ o = '(' ∧ c = ')' ∨ o = '[' ∧ c = ']' := by
  unfold closing? at h
  split at h
  next ho => exact .inl ⟨ho, (Option.some.inj h).symm⟩
  next =>
    split at h
    next ho => exact .inr (.inl ⟨ho, (Option.some.inj h).symm⟩)
    next =>
      split at h
      next ho => exact .inr (.inr ⟨ho, (Option.some.inj h).symm⟩)
      next => cases h

theorem isPlain_iff {c : Char} : isPlain c = true ↔
    (c ≠ '<' ∧ c ≠ '(' ∧ c ≠ '[') ∧ c ≠ '>' ∧ c ≠ ')' ∧ c ≠ ']' := by
  unfold isPlain isClosing closing?
  split_ifs <;> simp_all [and_assoc]

theorem isPlain_of_isBlank {c : Char} (h : isBlank c = true) : isPlain c = true := by
  rw [isPlain_iff]
  refine ⟨⟨?_, ?_, ?_⟩, ?_, ?_, ?_⟩ <;> (rintro rfl; exact absurd h (by decide))

inductive Nested : List Char → Prop
  | nil : Nested []
  | plain {c : Char} {w : List Char} : isPlain c = true → Nested w → Nested (c :: w)
  | bracket {o c : Char} {u v : List Char} : closing? o = some c → Nested u → Nested v →
      Nested (o :: u ++ c :: v)

theorem Nested.append {u v : List Char} (hu : Nested u) (hv : Nested v) : Nested (u ++ v) := by
  induction hu with
  | nil => exact hv
  | plain hc _ ih => exact .plain hc ih
  | bracket ho hinner _ _ ih =>
    rw [List.append_assoc]
    exact .bracket ho hinner ih

/-! ## A stack -/

/-- `awaited` holds the brackets that are to close what is open, innermost first. -/
def nestedFrom (awaited : List Char) : List Char → Bool
  | [] => awaited.isEmpty
  | c :: rest =>
    match closing? c with
    | some d => nestedFrom (d :: awaited) rest
    | none =>
      if isClosing c then awaited.head? == some c && nestedFrom awaited.tail rest
      else nestedFrom awaited rest

section Stack

variable (awaited rest : List Char)

theorem nestedFrom_plain {c : Char} (h : isPlain c = true) :
    nestedFrom awaited (c :: rest) = nestedFrom awaited rest := by
  rw [isPlain, Bool.and_eq_true, Option.isNone_iff_eq_none, Bool.not_eq_true'] at h
  rw [nestedFrom]
  simp only [h.1, h.2]
  rfl

theorem nestedFrom_open {o c : Char} (h : closing? o = some c) :
    nestedFrom awaited (o :: rest) = nestedFrom (c :: awaited) rest := by
  rw [nestedFrom]
  simp only [h]

theorem nestedFrom_close {o c : Char} (h : closing? o = some c) :
    nestedFrom (c :: awaited) (c :: rest) = nestedFrom awaited rest := by
  obtain ⟨-, rfl⟩ | ⟨-, rfl⟩ | ⟨-, rfl⟩ := closing?_eq_some h <;> rfl

theorem Nested.nestedFrom_append {w : List Char} (h : Nested w) :
    nestedFrom awaited (w ++ rest) = nestedFrom awaited rest := by
  induction h generalizing awaited rest with
  | nil => rfl
  | plain hc _ ih => rw [List.cons_append, nestedFrom_plain _ _ hc, ih]
  | bracket ho _ _ ihu ihv =>
    rw [List.append_assoc, List.cons_append, nestedFrom_open _ _ ho, ihu, List.cons_append,
      nestedFrom_close _ _ ho, ihv]

end Stack

/-- Nested text up to each of the awaited brackets, and behind the last of them. -/
def Closes : List Char → List Char → Prop
  | [], w => Nested w
  | c :: awaited, w => ∃ u v, w = u ++ c :: v ∧ Nested u ∧ Closes awaited v

theorem Closes.plain {awaited w : List Char} {c : Char} (hc : isPlain c = true)
    (h : Closes awaited w) : Closes awaited (c :: w) := by
  cases awaited with
  | nil => exact Nested.plain hc h
  | cons d awaited =>
    obtain ⟨u, v, rfl, hu, hv⟩ := h
    exact ⟨c :: u, v, rfl, .plain hc hu, hv⟩

theorem Closes.bracket {awaited w : List Char} {o c : Char} (ho : closing? o = some c)
    (h : Closes (c :: awaited) w) : Closes awaited (o :: w) := by
  obtain ⟨u, v, rfl, hu, hv⟩ := h
  cases awaited with
  | nil => exact Nested.bracket ho hu hv
  | cons d awaited =>
    obtain ⟨u', v', rfl, hu', hv'⟩ := hv
    exact ⟨o :: u ++ c :: u', v', by simp, .bracket ho hu hu', hv'⟩

theorem closes_of_nestedFrom {awaited w : List Char} (h : nestedFrom awaited w = true) :
    Closes awaited w := by
  induction w generalizing awaited with
  | nil =>
    obtain rfl := List.isEmpty_iff.mp h
    exact Nested.nil
  | cons c w ih =>
    cases hopen : closing? c with
    | some d =>
      rw [nestedFrom_open _ _ hopen] at h
      exact (ih h).bracket hopen
    | none =>
      cases hclose : isClosing c with
      | false =>
        have hplain : isPlain c = true := by rw [isPlain, hopen, hclose]; rfl
        rw [nestedFrom_plain _ _ hplain] at h
        exact (ih h).plain hplain
      | true =>
        simp only [nestedFrom, hopen, hclose, if_true, Bool.and_eq_true, beq_iff_eq] at h
        obtain ⟨hhead, htail⟩ := h
        obtain ⟨awaited, rfl⟩ := List.head?_eq_some_iff.mp hhead
        exact ⟨[], w, rfl, .nil, ih htail⟩

theorem nested_iff {w : List Char} : Nested w ↔ nestedFrom [] w = true := by
  constructor
  · intro h
    have happend := h.nestedFrom_append [] []
    rw [List.append_nil] at happend
    exact happend
  · exact closes_of_nestedFrom

instance (w : List Char) : Decidable (Nested w) :=
  decidable_of_iff _ nested_iff.symm

theorem nestedFrom_filter (awaited w : List Char) :
    nestedFrom awaited (w.filter fun c => !isPlain c) = nestedFrom awaited w := by
  induction w generalizing awaited with
  | nil => rfl
  | cons c w ih =>
    cases hc : isPlain c with
    | true => rw [List.filter_cons_of_neg (by simp [hc]), nestedFrom_plain _ _ hc, ih]
    | false =>
      rw [List.filter_cons_of_pos (by simp [hc]), nestedFrom, nestedFrom]
      simp only [ih]

theorem filter_not_isPlain_compact (name : List Char) :
    (compact name).filter (fun c => !isPlain c) = name.filter fun c => !isPlain c := by
  refine filter_compact (fun c hc => ?_) name
  rw [isPlain_of_isBlank hc]
  rfl

/-- Whether text is nested is told by its brackets, which compaction leaves alone. -/
theorem nested_compact {name : List Char} (h : Nested name) : Nested (compact name) := by
  rw [nested_iff, ← nestedFrom_filter, filter_not_isPlain_compact, nestedFrom_filter]
  exact nested_iff.mp h

/-! ## Open brackets -/

theorem nesting_of_isPlain {c : Char} (h : isPlain c = true) : nesting c = 0 := by
  obtain ⟨⟨h1, h2, h3⟩, h4, h5, h6⟩ := isPlain_iff.mp h
  simp [nesting, h1, h2, h3, h4, h5, h6]

theorem nesting_of_closing? {o c : Char} (h : closing? o = some c) :
    nesting o = 1 ∧ nesting c = -1 := by
  obtain ⟨rfl, rfl⟩ | ⟨rfl, rfl⟩ | ⟨rfl, rfl⟩ := closing?_eq_some h <;> exact ⟨rfl, rfl⟩

/-- How many brackets a text opens beyond those that it closes. -/
def balance : List Char → Int
  | [] => 0
  | c :: rest => nesting c + balance rest

/-- The balance at the place of a text where most brackets are open, which may be its beginning. -/
def peak : List Char → Int
  | [] => 0
  | c :: rest => max 0 (nesting c + peak rest)

/-- The balance where fewest are open. -/
def trough : List Char → Int
  | [] => 0
  | c :: rest => min 0 (nesting c + trough rest)

@[simp] theorem balance_nil : balance [] = 0 := rfl

@[simp] theorem balance_cons (c : Char) (rest : List Char) :
    balance (c :: rest) = nesting c + balance rest := rfl

theorem balance_append (u v : List Char) : balance (u ++ v) = balance u + balance v := by
  induction u with
  | nil => rw [List.nil_append, balance_nil, Int.zero_add]
  | cons c u ih => rw [List.cons_append, balance_cons, balance_cons, ih, Int.add_assoc]

theorem peak_nonneg (text : List Char) : 0 ≤ peak text := by
  cases text with
  | nil => exact Int.le_refl 0
  | cons c rest => exact Int.le_max_left 0 _

theorem trough_nonpos (text : List Char) : trough text ≤ 0 := by
  cases text with
  | nil => exact Int.le_refl 0
  | cons c rest => exact Int.min_le_left 0 _

theorem trough_le_balance (text : List Char) : trough text ≤ balance text := by
  induction text with
  | nil => exact Int.le_refl 0
  | cons c rest ih =>
    rw [trough, balance_cons]
    omega

theorem peak_append (u v : List Char) : peak (u ++ v) = max (peak u) (balance u + peak v) := by
  have hv := peak_nonneg v
  induction u with
  | nil =>
    rw [List.nil_append, peak, balance_nil]
    omega
  | cons c u ih =>
    rw [List.cons_append, peak, peak, ih, balance_cons]
    omega

theorem trough_append (u v : List Char) :
    trough (u ++ v) = min (trough u) (balance u + trough v) := by
  have hv := trough_nonpos v
  induction u with
  | nil =>
    rw [List.nil_append, trough, balance_nil]
    omega
  | cons c u ih =>
    rw [List.cons_append, trough, trough, ih, balance_cons]
    omega

theorem Nested.balance_eq {w : List Char} (h : Nested w) : balance w = 0 := by
  induction h with
  | nil => rfl
  | plain hc _ ih => rw [balance_cons, nesting_of_isPlain hc, ih, Int.add_zero]
  | bracket ho _ _ ihu ihv =>
    obtain ⟨hopen, hclose⟩ := nesting_of_closing? ho
    rw [balance_append, balance_cons, balance_cons, hopen, hclose, ihu, ihv]
    rfl

theorem Nested.trough_eq {w : List Char} (h : Nested w) : trough w = 0 := by
  induction h with
  | nil => rfl
  | plain hc _ ih =>
    rw [trough, nesting_of_isPlain hc, ih]
    rfl
  | bracket ho hu _ ihu ihv =>
    obtain ⟨hopen, hclose⟩ := nesting_of_closing? ho
    rw [trough_append, trough, balance_cons, trough, hopen, hclose, hu.balance_eq, ihu, ihv]
    rfl

/-- What is no bracket does not count. -/
theorem peak_filter (w : List Char) : peak (w.filter fun c => !isPlain c) = peak w := by
  induction w with
  | nil => rfl
  | cons c w ih =>
    cases hc : isPlain c with
    | true =>
      have hw := peak_nonneg w
      rw [List.filter_cons_of_neg (by simp [hc]), ih, peak, nesting_of_isPlain hc]
      omega
    | false => rw [List.filter_cons_of_pos (by simp [hc]), peak, peak, ih]

theorem peak_compact (name : List Char) : peak (compact name) = peak name := by
  rw [← peak_filter (compact name), filter_not_isPlain_compact, peak_filter]

/-! ## Arguments -/

/-- Nested text whose commas all stand within brackets. -/
inductive IsArgument : List Char → Prop
  | nil : IsArgument []
  | plain {c : Char} {w : List Char} : isPlain c = true → c ≠ ',' → IsArgument w →
      IsArgument (c :: w)
  | bracket {o c : Char} {u v : List Char} : closing? o = some c → Nested u → IsArgument v →
      IsArgument (o :: u ++ c :: v)

theorem IsArgument.nested {a : List Char} (h : IsArgument a) : Nested a := by
  induction h with
  | nil => exact .nil
  | plain hc _ _ ih => exact .plain hc ih
  | bracket ho hu _ ih => exact .bracket ho hu ih

theorem joinArguments_singleton (a : List Char) : joinArguments [a] = a := by
  simp [joinArguments]

theorem joinArguments_cons_cons (a b : List Char) (rest : List (List Char)) :
    joinArguments (a :: b :: rest) = a ++ ',' :: joinArguments (b :: rest) := by
  simp [joinArguments, List.intercalate_cons_cons]

theorem joinArguments_cons_append (u a : List Char) (rest : List (List Char)) :
    joinArguments ((u ++ a) :: rest) = u ++ joinArguments (a :: rest) := by
  cases rest with
  | nil => rw [joinArguments_singleton, joinArguments_singleton]
  | cons b rest => rw [joinArguments_cons_cons, joinArguments_cons_cons, List.append_assoc]

theorem nested_joinArguments {arguments : List (List Char)}
    (h : ∀ a ∈ arguments, IsArgument a) : Nested (joinArguments arguments) := by
  induction arguments with
  | nil => exact .nil
  | cons a rest ih =>
    obtain ⟨ha, hrest⟩ := List.forall_mem_cons.mp h
    cases rest with
    | nil =>
      rw [joinArguments_singleton]
      exact ha.nested
    | cons b rest =>
      rw [joinArguments_cons_cons]
      exact ha.nested.append (.plain (by decide) (ih hrest))

/-- A comma outside of brackets begins another argument; all else goes to the first one. -/
theorem exists_arguments {w : List Char} (h : Nested w) :
    ∃ a rest, w = joinArguments (a :: rest) ∧ ∀ b ∈ a :: rest, IsArgument b := by
  induction h with
  | nil =>
    refine ⟨[], [], (joinArguments_singleton []).symm, ?_⟩
    intro b hb
    rw [List.mem_singleton.mp hb]
    exact .nil
  | @plain c w hc _ ih =>
    obtain ⟨a, rest, rfl, hargs⟩ := ih
    by_cases hcomma : c = ','
    · refine ⟨[], a :: rest, ?_, List.forall_mem_cons.mpr ⟨.nil, hargs⟩⟩
      rw [joinArguments_cons_cons, hcomma]
      rfl
    · obtain ⟨ha, hrest⟩ := List.forall_mem_cons.mp hargs
      refine ⟨[c] ++ a, rest, ?_, List.forall_mem_cons.mpr ⟨.plain hc hcomma ha, hrest⟩⟩
      rw [joinArguments_cons_append]
      rfl
  | @bracket o c u v ho hu _ _ ih =>
    obtain ⟨a, rest, rfl, hargs⟩ := ih
    obtain ⟨ha, hrest⟩ := List.forall_mem_cons.mp hargs
    refine ⟨(o :: u ++ [c]) ++ a, rest, ?_, List.forall_mem_cons.mpr ⟨?_, hrest⟩⟩
    · rw [joinArguments_cons_append]
      simp
    · rw [List.append_assoc]
      exact .bracket ho hu ha

/-! ## The scanners -/

theorem closeList?_cons {c : Char} (hopen : c ≠ '<') (hclose : c ≠ '>') (depth : Nat)
    (inner rest : List Char) :
    closeList? depth inner (c :: rest) = closeList? depth (c :: inner) rest := by
  simp only [closeList?, if_neg hclose, if_neg hopen]

theorem closeList?_open (depth : Nat) (inner rest : List Char) :
    closeList? depth inner ('<' :: rest) = closeList? (depth + 1) ('<' :: inner) rest := by
  simp only [closeList?, if_true, if_neg (show '<' ≠ '>' by decide)]

theorem closeList?_nested {u : List Char} (h : Nested u) (depth : Nat) (inner rest : List Char) :
    closeList? depth inner (u ++ rest) = closeList? depth (u.reverse ++ inner) rest := by
  induction h generalizing depth inner rest with
  | nil => rfl
  | plain hc _ ih =>
    obtain ⟨⟨hopen, -⟩, hclose, -⟩ := isPlain_iff.mp hc
    rw [List.cons_append, closeList?_cons hopen hclose, ih]
    simp
  | @bracket o c u v ho _ _ ihu ihv =>
    rw [List.append_assoc, List.cons_append, List.cons_append]
    -- Only angle brackets change the depth, and they change it back.
    have hpair : closeList? depth inner (o :: (u ++ c :: (v ++ rest))) =
        closeList? depth (c :: (u.reverse ++ o :: inner)) (v ++ rest) := by
      obtain ⟨rfl, rfl⟩ | ⟨rfl, rfl⟩ | ⟨rfl, rfl⟩ := closing?_eq_some ho
      · rw [closeList?_open, ihu]
        rfl
      · rw [closeList?_cons (by decide) (by decide), ihu, closeList?_cons (by decide) (by decide)]
      · rw [closeList?_cons (by decide) (by decide), ihu, closeList?_cons (by decide) (by decide)]
    rw [hpair, ihv]
    simp

/-- A count of 32 bits is zero again only after all of its values. -/
theorem ofInt_ne_zero {depth : Int} (hpos : 0 < depth) (hlt : depth < UInt32.size) :
    Int32.ofInt depth ≠ 0 := by
  intro hzero
  have hint := congrArg Int32.toInt hzero
  rw [Int32.toInt_ofInt, Int32.toInt_zero] at hint
  have hsize : Int32.size = UInt32.size := rfl
  rw [hsize] at hint
  have hdvd : (UInt32.size : Int) ∣ depth := Int.dvd_of_bmod_eq_zero hint
  exact absurd (Int.le_of_dvd hpos hdvd) (by omega)

theorem splitFrom_nested {u : List Char} (h : Nested u) {depth : Int} (hd : 0 < depth)
    (hpeak : depth + peak u < UInt32.size) (piece rest : List Char) :
    splitFrom (Int32.ofInt depth) piece (u ++ rest) =
      splitFrom (Int32.ofInt depth) (u.reverse ++ piece) rest := by
  have hne : Int32.ofInt depth ≠ 0 := by
    have hu := peak_nonneg u
    exact ofInt_ne_zero hd (by omega)
  induction h generalizing depth piece rest with
  | nil => rfl
  | @plain c w hc _ ih =>
    rw [peak, nesting_of_isPlain hc] at hpeak
    rw [List.cons_append, splitFrom, if_neg fun h => hne h.2, ← Int32.ofInt_add,
      nesting_of_isPlain hc, Int.add_zero, ih hd (by omega) _ _ hne]
    simp
  | @bracket o c u v ho hu _ ihu ihv =>
    obtain ⟨hopen, hclose⟩ := nesting_of_closing? ho
    rw [peak_append, peak, balance_cons, peak, hopen, hclose, hu.balance_eq] at hpeak
    have hpu := peak_nonneg u
    have hne' : Int32.ofInt (depth + 1) ≠ 0 := ofInt_ne_zero (by omega) (by omega)
    rw [List.append_assoc, List.cons_append, List.cons_append, splitFrom, if_neg fun h => hne h.2,
      ← Int32.ofInt_add, hopen, ihu (by omega) (by omega) _ _ hne', splitFrom,
      if_neg fun h => hne' h.2, ← Int32.ofInt_add, hclose, Int.add_neg_cancel_right,
      ihv hd (by omega) _ _ hne]
    simp

theorem splitFrom_argument {a : List Char} (h : IsArgument a) (hpeak : peak a < UInt32.size)
    (piece rest : List Char) :
    splitFrom 0 piece (a ++ rest) = splitFrom 0 (a.reverse ++ piece) rest := by
  induction h generalizing piece rest with
  | nil => rfl
  | @plain c w hc hcomma _ ih =>
    rw [peak, nesting_of_isPlain hc] at hpeak
    rw [List.cons_append, splitFrom, if_neg fun h => hcomma h.1, nesting_of_isPlain hc]
    change splitFrom 0 (c :: piece) (w ++ rest) = _
    rw [ih (by omega)]
    simp
  | @bracket o c u v ho hu _ ih =>
    obtain ⟨hopen, hclose⟩ := nesting_of_closing? ho
    have hcomma : o ≠ ',' := by
      rintro rfl
      cases ho
    rw [peak_append, peak, balance_cons, peak, hopen, hclose, hu.balance_eq] at hpeak
    have hone : (0 : Int32) + Int32.ofInt 1 = Int32.ofInt 1 := rfl
    have hback : Int32.ofInt 1 + Int32.ofInt (-1) = 0 := rfl
    rw [List.append_assoc, List.cons_append, List.cons_append, splitFrom,
      if_neg fun h => hcomma h.1, hopen, hone, splitFrom_nested hu (by decide) (by omega),
      splitFrom, if_neg fun h => absurd h.2 (by decide), hclose, hback, ih (by omega)]
    simp

theorem peak_joinArguments_cons_cons {a : List Char} (ha : IsArgument a) (b : List Char)
    (rest : List (List Char)) :
    peak (joinArguments (a :: b :: rest)) = max (peak a) (peak (joinArguments (b :: rest))) := by
  have hrest := peak_nonneg (joinArguments (b :: rest))
  rw [joinArguments_cons_cons, peak_append, ha.nested.balance_eq, peak,
    show nesting ',' = 0 from rfl]
  omega

theorem splitArguments_joinArguments {a : List Char} {rest : List (List Char)}
    (h : ∀ b ∈ a :: rest, IsArgument b)
    (hpeak : peak (joinArguments (a :: rest)) < UInt32.size) :
    splitArguments (joinArguments (a :: rest)) = a :: rest := by
  rw [splitArguments]
  induction rest generalizing a with
  | nil =>
    rw [joinArguments_singleton] at hpeak
    have ha := splitFrom_argument (h a List.mem_cons_self) hpeak [] []
    rw [List.append_nil, List.append_nil] at ha
    rw [joinArguments_singleton, ha, splitFrom, List.reverse_reverse]
  | cons b rest ih =>
    obtain ⟨ha, hrest⟩ := List.forall_mem_cons.mp h
    rw [peak_joinArguments_cons_cons ha] at hpeak
    rw [joinArguments_cons_cons, splitFrom_argument ha (by omega), splitFrom, if_pos ⟨rfl, rfl⟩,
      ih hrest (by omega), List.append_nil, List.reverse_reverse]

theorem isArgument_iff {a : List Char} (hpeak : peak a < UInt32.size) :
    IsArgument a ↔ Nested a ∧ splitArguments a = [a] := by
  constructor
  · intro h
    have hsplit : splitArguments (joinArguments [a]) = [a] :=
      splitArguments_joinArguments (fun b hb => List.mem_singleton.mp hb ▸ h)
        (by rwa [joinArguments_singleton])
    rw [joinArguments_singleton] at hsplit
    exact ⟨h.nested, hsplit⟩
  · rintro ⟨hn, hsplit⟩
    obtain ⟨b, rest, rfl, hargs⟩ := exists_arguments hn
    rw [splitArguments_joinArguments hargs hpeak] at hsplit
    obtain ⟨hb, -⟩ := List.cons.inj hsplit
    rw [← hb]
    exact hargs b List.mem_cons_self

/-! ## The first list -/

theorem exists_list {w : List Char} (h : Nested w) (hm : '<' ∈ w) :
    ∃ before inner after, w = before ++ '<' :: inner ++ '>' :: after ∧ '<' ∉ before ∧
      Nested inner := by
  induction h with
  | nil => cases hm
  | @plain c w hc _ ih =>
    have hne : '<' ≠ c := (isPlain_iff.mp hc).1.1.symm
    obtain ⟨before, inner, after, rfl, hbefore, hinner⟩ :=
      ih ((List.mem_cons.mp hm).resolve_left hne)
    exact ⟨c :: before, inner, after, rfl, by simp [hne, hbefore], hinner⟩
  | @bracket o c u v ho hu _ ihu ihv =>
    by_cases hopen : o = '<'
    · obtain ⟨-, rfl⟩ | ⟨rfl, -⟩ | ⟨rfl, -⟩ := closing?_eq_some ho
      · exact ⟨[], u, v, by rw [hopen]; rfl, by simp, hu⟩
      · exact absurd hopen (by decide)
      · exact absurd hopen (by decide)
    · have hclose : '<' ≠ c := by
        obtain ⟨-, rfl⟩ | ⟨-, rfl⟩ | ⟨-, rfl⟩ := closing?_eq_some ho <;> decide
      by_cases hmu : '<' ∈ u
      · obtain ⟨before, inner, after, rfl, hbefore, hinner⟩ := ihu hmu
        exact ⟨o :: before, inner, after ++ c :: v, by simp, by simp [Ne.symm hopen, hbefore],
          hinner⟩
      · have hmv : '<' ∈ v := by simpa [Ne.symm hopen, hmu, hclose] using hm
        obtain ⟨before, inner, after, rfl, hbefore, hinner⟩ := ihv hmv
        exact ⟨o :: u ++ c :: before, inner, after, by simp,
          by simp [Ne.symm hopen, hmu, hclose, hbefore], hinner⟩

end BuildAdvisor.Template
