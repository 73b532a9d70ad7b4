import BuildAdvisor.Proofs.Text.Word
import BuildAdvisor.Text.Pattern

/-!
What the search for a match finds.

* `Place.advance`, `Place.Ahead` — places further on in the same text;
* `Pattern.ends` — all places in which a match can end, the preferred one first;
* `run_eq` — the search goes through these places in their order, so a match ends in the first of
  them (`matchAt_eq`);
* `ahead_of_mem_ends`, `captured_of_mem_ends` — every end lies ahead, and a pattern without a
  capture keeps what was captured before;
* `byTextAhead_ends`, `ends_eq_nil_iff` — a pattern that tests no place goes by the text ahead;
* `ends_many_char` — the ends of a repeated character, longest first;
* `occurrencesFrom_cons_none`, `occurrencesFrom_cons_some`, `occurrencesFrom_skip` — how the search
  for further matches goes on;
* `exists_of_mem_occurrences` — an occurrence is a first end somewhere in the text.
-/

set_option autoImplicit false

namespace BuildAdvisor.Text

/-! ## Places -/

namespace Place

/-- The place `n` characters further on. -/
def advance (n : Nat) (p : Place) : Place :=
  { p with
    before := (p.rest.take n).getLast?.or p.before
    rest := p.rest.drop n
    index := p.index + n }

theorem advance_zero (p : Place) : p.advance 0 = p := by
  obtain ⟨before, rest, index, captured⟩ := p
  simp [advance]

theorem advance_advance (p : Place) (m n : Nat) : (p.advance m).advance n = p.advance (m + n) := by
  simp only [advance, List.take_add, List.getLast?_append, List.drop_drop, Option.or_assoc,
    Nat.add_assoc]

theorem advance_one {p : Place} {c : Char} {rest : List Char} (h : p.rest = c :: rest) :
    { p with before := some c, rest, index := p.index + 1 } = p.advance 1 := by
  simp [advance, h]

/-- `q` is reached from `p` by passing characters, whatever was captured on the way. -/
def Ahead (p q : Place) : Prop :=
  ∃ n ≤ p.rest.length, { q with captured := p.captured } = p.advance n

theorem Ahead.refl (p : Place) : p.Ahead p :=
  ⟨0, Nat.zero_le _, (advance_zero p).symm⟩

theorem Ahead.rest_eq {p q : Place} (h : p.Ahead q) :
    ∃ n ≤ p.rest.length, q.rest = p.rest.drop n := by
  obtain ⟨n, hn, heq⟩ := h
  exact ⟨n, hn, congrArg Place.rest heq⟩

theorem Ahead.length_le {p q : Place} (h : p.Ahead q) : q.rest.length ≤ p.rest.length := by
  obtain ⟨n, -, heq⟩ := h.rest_eq
  rw [heq, List.length_drop]
  exact Nat.sub_le _ _

theorem Ahead.trans {p q r : Place} (hpq : p.Ahead q) (hqr : q.Ahead r) : p.Ahead r := by
  obtain ⟨m, hm, hq⟩ := hpq
  obtain ⟨n, hn, hr⟩ := hqr
  have hrest : q.rest = p.rest.drop m := congrArg Place.rest hq
  have heq : { r with captured := p.captured } = p.advance (m + n) := by
    rw [← advance_advance, ← hq]
    exact congrArg (fun x : Place => { x with captured := p.captured }) hr
  refine ⟨m + n, ?_, heq⟩
  rw [hrest, List.length_drop] at hn
  omega

theorem ahead_advance {p : Place} {n : Nat} (h : n ≤ p.rest.length) : p.Ahead (p.advance n) :=
  ⟨n, h, rfl⟩

/-- The place lies in a text: what was passed stands before it. -/
def In (text : List Char) (p : Place) : Prop :=
  ∃ passed, passed ++ p.rest = text ∧ passed.getLast? = p.before

theorem In.ahead {text : List Char} {p q : Place} (hp : p.In text) (h : p.Ahead q) : q.In text := by
  obtain ⟨passed, htext, hlast⟩ := hp
  obtain ⟨n, -, heq⟩ := h
  have hrest : q.rest = p.rest.drop n := congrArg Place.rest heq
  have hbefore : q.before = (p.rest.take n).getLast?.or p.before := congrArg Place.before heq
  refine ⟨passed ++ p.rest.take n, ?_, ?_⟩
  · rw [hrest, List.append_assoc, List.take_append_drop, htext]
  · rw [hbefore, List.getLast?_append, hlast]

end Place

/-! ## Ends of a match -/

namespace Pattern

/-- The places in which a repetition can end, given those in which a round can. -/
def roundEnds (round : Place → List Place) (greedy : Bool) : Nat → Place → List Place
  | 0, p => [p]
  | rounds + 1, p =>
    let more := (round p).flatMap (roundEnds round greedy rounds)
    if greedy then more ++ [p] else p :: more

/-- The places in which a match from a place on can end, in order of preference. -/
def ends (rounds : Nat) : Pattern → Place → List Place
  | empty, p => [p]
  | char accepts, p =>
    match p.rest with
    | [] => []
    | c :: _ => if accepts c then [p.advance 1] else []
  | seq first second, p => (ends rounds first p).flatMap (ends rounds second)
  | choice left right, p => ends rounds left p ++ ends rounds right p
  | many greedy body, p => roundEnds (ends rounds body) greedy rounds p
  | capture body, p =>
    (ends rounds body p).map fun q => { q with captured := some (p.rest, q.index - p.index) }
  | lineStart, p => if p.atLineStart then [p] else []
  | wordEdge, p => if p.atWordEdge then [p] else []

theorem findSome?_flatMap {γ δ β : Type} (f : γ → List δ) (next : δ → Option β) (xs : List γ) :
    (xs.flatMap f).findSome? next = xs.findSome? fun x => (f x).findSome? next := by
  induction xs with
  | nil => rfl
  | cons x xs ih =>
    rw [List.flatMap_cons, List.findSome?_append, ih, List.findSome?_cons]
    cases (f x).findSome? next <;> rfl

section Search

variable {β : Type}

theorem repeated_eq {round : Place → (Place → Option β) → Option β} {ends : Place → List Place}
    (h : ∀ p next, round p next = (ends p).findSome? next) (greedy : Bool) (rounds : Nat)
    (p : Place) (next : Place → Option β) :
    repeated round greedy rounds p next = (roundEnds ends greedy rounds p).findSome? next := by
  induction rounds generalizing p with
  | zero =>
    rw [repeated, roundEnds, List.findSome?_singleton]
  | succ rounds ih =>
    have hmore : (round p fun q => repeated round greedy rounds q next) =
        ((ends p).flatMap (roundEnds ends greedy rounds)).findSome? next := by
      rw [h, findSome?_flatMap]
      exact congrArg (fun k => (ends p).findSome? k) (funext ih)
    simp only [repeated, roundEnds, hmore]
    cases greedy with
    | true =>
      rw [if_pos rfl, if_pos rfl, List.findSome?_append, List.findSome?_singleton]
      cases ((ends p).flatMap (roundEnds ends true rounds)).findSome? next <;> rfl
    | false =>
      rw [if_neg Bool.false_ne_true, if_neg Bool.false_ne_true, List.findSome?_cons]
      cases next p <;> rfl

theorem run_eq (rounds : Nat) (pattern : Pattern) (p : Place) (next : Place → Option β) :
    pattern.run rounds p next = (ends rounds pattern p).findSome? next := by
  induction pattern generalizing p next with
  | empty => rw [run, ends, List.findSome?_singleton]
  | char accepts =>
    cases hrest : p.rest with
    | nil => simp [run, ends, hrest]
    | cons c rest =>
      by_cases hc : accepts c = true
      · simp [run, ends, hrest, hc, Place.advance_one hrest]
      · simp [run, ends, hrest, hc]
  | seq first second ihf ihs =>
    rw [run, ends, ihf, findSome?_flatMap]
    exact congrArg (fun k => (ends rounds first p).findSome? k) (funext fun q => ihs q next)
  | choice left right ihl ihr =>
    rw [run, ends, ihl, ihr, List.findSome?_append]
    cases (ends rounds left p).findSome? next <;> rfl
  | many greedy body ih => exact repeated_eq ih greedy rounds p next
  | capture body ih =>
    rw [run, ends, ih, List.findSome?_map]
    rfl
  | lineStart =>
    rw [run, ends]
    split <;> simp
  | wordEdge =>
    rw [run, ends]
    split <;> simp

theorem matchAt_eq (rounds : Nat) (pattern : Pattern) (before : Option Char) (text : List Char) :
    pattern.matchAt rounds before text = (ends rounds pattern ⟨before, text, 0, none⟩).head? := by
  rw [matchAt, run_eq]
  cases ends rounds pattern ⟨before, text, 0, none⟩ <;> rfl

end Search

/-! ## Where ends lie -/

section Ends

variable {rounds : Nat} {p q : Place}

theorem mem_ends_char {accepts : Char → Bool} (h : q ∈ ends rounds (char accepts) p) :
    q = p.advance 1 ∧ ∃ c rest, p.rest = c :: rest ∧ accepts c = true := by
  rw [ends] at h
  split at h
  next => cases h
  next c rest hrest =>
    split at h
    next hc => exact ⟨List.mem_singleton.mp h, c, rest, hrest, hc⟩
    next => cases h

theorem before_of_mem_ends_char {accepts : Char → Bool} (h : q ∈ ends rounds (char accepts) p) :
    ∃ c, q.before = some c ∧ accepts c = true := by
  obtain ⟨rfl, c, rest, hrest, hc⟩ := mem_ends_char h
  exact ⟨c, by simp [Place.advance, hrest], hc⟩

/-- What holds of a place and is kept by a round holds wherever the repetition ends. -/
theorem roundEnds_induction {round : Place → List Place} {R : Place → Prop}
    (hround : ∀ p, R p → ∀ q ∈ round p, R q) {greedy : Bool} (hp : R p)
    (h : q ∈ roundEnds round greedy rounds p) : R q := by
  induction rounds generalizing p with
  | zero =>
    obtain rfl := List.mem_singleton.mp h
    exact hp
  | succ rounds ih =>
    have hcases : q = p ∨ q ∈ (round p).flatMap (roundEnds round greedy rounds) := by
      cases greedy <;> simpa [roundEnds, or_comm] using h
    rcases hcases with rfl | hmore
    · exact hp
    · obtain ⟨r, hr, hq⟩ := List.mem_flatMap.mp hmore
      exact ih (hround p hp r hr) hq

theorem ahead_of_mem_ends {pattern : Pattern} (h : q ∈ ends rounds pattern p) : p.Ahead q := by
  induction pattern generalizing p q with
  | empty =>
    obtain rfl := List.mem_singleton.mp h
    exact .refl q
  | char accepts =>
    obtain ⟨rfl, c, rest, hrest, -⟩ := mem_ends_char h
    exact Place.ahead_advance (by simp [hrest])
  | seq first second ihf ihs =>
    obtain ⟨r, hr, hq⟩ := List.mem_flatMap.mp h
    exact (ihf hr).trans (ihs hq)
  | choice left right ihl ihr =>
    rcases List.mem_append.mp h with h | h
    · exact ihl h
    · exact ihr h
  | many greedy body ih =>
    exact roundEnds_induction (R := p.Ahead) (fun r hr q hq => hr.trans (ih hq)) (.refl p) h
  | capture body ih =>
    obtain ⟨r, hr, rfl⟩ := List.mem_map.mp h
    have hahead : p.Ahead r := ih hr
    exact hahead
  | lineStart =>
    rw [ends] at h
    split at h
    · obtain rfl := List.mem_singleton.mp h
      exact .refl q
    · cases h
  | wordEdge =>
    rw [ends] at h
    split at h
    · obtain rfl := List.mem_singleton.mp h
      exact .refl q
    · cases h

/-- The pattern captures nothing. -/
def captureless : Pattern → Bool
  | seq first second => captureless first && captureless second
  | choice left right => captureless left && captureless right
  | many _ body => captureless body
  | capture _ => false
  | _ => true

theorem captured_of_mem_ends {pattern : Pattern} (hpattern : pattern.captureless = true)
    (h : q ∈ ends rounds pattern p) : q.captured = p.captured := by
  induction pattern generalizing p q with
  | empty =>
    obtain rfl := List.mem_singleton.mp h
    rfl
  | char accepts =>
    obtain ⟨rfl, -⟩ := mem_ends_char h
    rfl
  | seq first second ihf ihs =>
    obtain ⟨hf, hs⟩ := Bool.and_eq_true_iff.mp hpattern
    obtain ⟨r, hr, hq⟩ := List.mem_flatMap.mp h
    exact (ihs hs hq).trans (ihf hf hr)
  | choice left right ihl ihr =>
    obtain ⟨hl, hr⟩ := Bool.and_eq_true_iff.mp hpattern
    rcases List.mem_append.mp h with h | h
    · exact ihl hl h
    · exact ihr hr h
  | many greedy body ih =>
    exact roundEnds_induction (R := fun r => r.captured = p.captured)
      (fun r hr q hq => (ih hpattern hq).trans hr) rfl h
  | capture body => cases hpattern
  | lineStart =>
    rw [ends] at h
    split at h
    · rw [List.mem_singleton.mp h]
    · cases h
  | wordEdge =>
    rw [ends] at h
    split at h
    · rw [List.mem_singleton.mp h]
    · cases h

end Ends

/-! ## What the text ahead decides -/

/-- What is left behind each end depends on the text ahead alone. -/
def ByTextAhead (ends : Place → List Place) : Prop :=
  ∀ p : Place, (ends p).map Place.rest = (ends (.start p.rest)).map Place.rest

theorem ByTextAhead.flatMap {first second : Place → List Place} (hfirst : ByTextAhead first)
    (hsecond : ByTextAhead second) : ByTextAhead fun p => (first p).flatMap second := by
  have hrest (p : Place) : ((first p).flatMap second).map Place.rest =
      ((first p).map Place.rest).flatMap fun text => (second (.start text)).map Place.rest := by
    rw [List.map_flatMap, List.flatMap_map]
    exact congrArg (fun k => (first p).flatMap k) (funext hsecond)
  intro p
  rw [hrest, hrest, hfirst p]

theorem ByTextAhead.append {left right : Place → List Place} (hleft : ByTextAhead left)
    (hright : ByTextAhead right) : ByTextAhead fun p => left p ++ right p := by
  intro p
  rw [List.map_append, List.map_append, hleft p, hright p]

theorem byTextAhead_here : ByTextAhead fun p => [p] :=
  fun _ => rfl

theorem ByTextAhead.roundEnds {round : Place → List Place} (h : ByTextAhead round) (greedy : Bool)
    (rounds : Nat) : ByTextAhead (roundEnds round greedy rounds) := by
  induction rounds with
  | zero => exact byTextAhead_here
  | succ rounds ih =>
    cases greedy with
    | true => exact (h.flatMap ih).append byTextAhead_here
    | false => exact byTextAhead_here.append (h.flatMap ih)

/-- The pattern tests no place. -/
def placeless : Pattern → Bool
  | seq first second => placeless first && placeless second
  | choice left right => placeless left && placeless right
  | many _ body => placeless body
  | capture body => placeless body
  | lineStart => false
  | wordEdge => false
  | _ => true

theorem byTextAhead_ends {pattern : Pattern} (h : pattern.placeless = true) (rounds : Nat) :
    ByTextAhead (ends rounds pattern) := by
  induction pattern with
  | empty => exact byTextAhead_here
  | char accepts =>
    intro p
    cases hrest : p.rest with
    | nil => simp [ends, hrest, Place.start]
    | cons c rest =>
      by_cases hc : accepts c = true
      · simp [ends, hrest, Place.start, hc, Place.advance]
      · simp [ends, hrest, Place.start, hc]
  | seq first second ihf ihs =>
    obtain ⟨hf, hs⟩ := Bool.and_eq_true_iff.mp h
    exact (ihf hf).flatMap (ihs hs)
  | choice left right ihl ihr =>
    obtain ⟨hl, hr⟩ := Bool.and_eq_true_iff.mp h
    exact (ihl hl).append (ihr hr)
  | many greedy body ih => exact (ih h).roundEnds greedy rounds
  | capture body ih =>
    intro p
    have hbody := ih h p
    simpa [ends, List.map_map, Function.comp_def] using hbody
  | lineStart => cases h
  | wordEdge => cases h

theorem ends_eq_nil_iff {pattern : Pattern} (h : pattern.placeless = true) {rounds : Nat}
    {p q : Place} (hpq : p.rest = q.rest) :
    ends rounds pattern p = [] ↔ ends rounds pattern q = [] := by
  rw [← List.map_eq_nil_iff (f := Place.rest), byTextAhead_ends h rounds p, hpq,
    ← byTextAhead_ends h rounds q, List.map_eq_nil_iff]

/-! ## A repeated character -/

section Repeated

variable {accepts : Char → Bool}

theorem ends_char_eq_nil {rounds : Nat} {p : Place}
    (h : ∀ c ∈ p.rest.head?, accepts c = false) : ends rounds (char accepts) p = [] := by
  refine List.eq_nil_iff_forall_not_mem.mpr fun q hq => ?_
  obtain ⟨-, c, rest, hrest, hc⟩ := mem_ends_char hq
  rw [h c (by rw [hrest]; rfl)] at hc
  cases hc

theorem ends_char_eq_singleton {rounds : Nat} {p : Place} {c : Char} {rest : List Char}
    (hrest : p.rest = c :: rest) (hc : accepts c = true) :
    ends rounds (char accepts) p = [p.advance 1] := by
  rw [ends, hrest]
  exact if_pos hc

/-- The rounds take the run character by character. -/
theorem roundEnds_char {rounds inner : Nat} {p : Place} {run rest : List Char}
    (hp : p.rest = run ++ rest) (hrun : ∀ c ∈ run, accepts c = true)
    (hrest : ∀ c ∈ rest.head?, accepts c = false) (hrounds : run.length ≤ rounds) :
    roundEnds (ends inner (char accepts)) true rounds p =
      ((List.range (run.length + 1)).map fun n => p.advance n).reverse := by
  induction run generalizing rounds p with
  | nil =>
    have hnone : ends inner (char accepts) p = [] := ends_char_eq_nil (by rwa [hp])
    cases rounds <;> simp [roundEnds, hnone, Place.advance_zero]
  | cons c run ih =>
    obtain ⟨rounds, rfl⟩ := Nat.exists_eq_add_one_of_ne_zero (Nat.ne_zero_of_lt hrounds)
    have hone : ends inner (char accepts) p = [p.advance 1] :=
      ends_char_eq_singleton hp (hrun c List.mem_cons_self)
    have hnext : (p.advance 1).rest = run ++ rest := by simp [Place.advance, hp]
    have hlater := ih hnext (fun d hd => hrun d (List.mem_cons_of_mem c hd))
      (Nat.le_of_succ_le_succ hrounds)
    have hrange : List.range (run.length + 1 + 1) =
        0 :: (List.range (run.length + 1)).map Nat.succ :=
      List.range_succ_eq_map
    rw [roundEnds, hone, if_pos rfl, List.flatMap_singleton, hlater, List.length_cons, hrange,
      List.map_cons, List.reverse_cons, Place.advance_zero, List.map_map]
    congr 2
    apply List.map_congr_left
    intro k _
    rw [Place.advance_advance, Nat.add_comm]
    rfl

/-- The repetition may stop after any part of the longest run, and prefers the longest. -/
theorem ends_many_char {rounds : Nat} {p : Place} {run rest : List Char}
    (hp : p.rest = run ++ rest) (hrun : ∀ c ∈ run, accepts c = true)
    (hrest : ∀ c ∈ rest.head?, accepts c = false) (hrounds : run.length ≤ rounds) :
    ends rounds (many true (char accepts)) p =
      ((List.range (run.length + 1)).map fun n => p.advance n).reverse :=
  roundEnds_char hp hrun hrest hrounds

end Repeated

/-! ## A given text -/

theorem mem_ends_chars {rounds : Nat} {p q : Place} {cs : List Char}
    (h : q ∈ ends rounds (cs.foldr (fun c rest => seq (char (· == c)) rest) empty) p) :
    ∃ rest, p.rest = cs ++ rest ∧ q = p.advance cs.length := by
  induction cs generalizing p with
  | nil => exact ⟨p.rest, rfl, (List.mem_singleton.mp h).trans p.advance_zero.symm⟩
  | cons c cs ih =>
    obtain ⟨r, hr, hq⟩ := List.mem_flatMap.mp h
    obtain ⟨rfl, d, rest, hrest, hd⟩ := mem_ends_char hr
    obtain ⟨later, hlater, rfl⟩ := ih hq
    have hnext : (p.advance 1).rest = rest := by rw [Place.advance, hrest]; rfl
    rw [hnext] at hlater
    obtain rfl := eq_of_beq hd
    refine ⟨later, by rw [hrest, hlater]; rfl, ?_⟩
    rw [Place.advance_advance, List.length_cons, Nat.add_comm]

theorem mem_ends_literal {rounds : Nat} {p q : Place} {text : String}
    (h : q ∈ ends rounds (literal text) p) :
    ∃ rest, p.rest = text.toList ++ rest ∧ q = p.advance text.toList.length :=
  mem_ends_chars h

/-! ## Occurrences -/

section Scan

variable {rounds : Nat} {pattern : Pattern} {before : Option Char} {c : Char} {rest : List Char}

theorem occurrencesFrom_cons_none (h : ends rounds pattern ⟨before, c :: rest, 0, none⟩ = []) :
    occurrencesFrom rounds pattern 0 before (c :: rest) =
      occurrencesFrom rounds pattern 0 (some c) rest := by
  rw [occurrencesFrom, matchAt_eq, h]
  rfl

theorem occurrencesFrom_cons_some {q : Place}
    (h : (ends rounds pattern ⟨before, c :: rest, 0, none⟩).head? = some q) :
    occurrencesFrom rounds pattern 0 before (c :: rest) =
      q :: occurrencesFrom rounds pattern (q.index - 1) (some c) rest := by
  rw [occurrencesFrom, matchAt_eq, h]

theorem getLast?_cons_or (c : Char) (run : List Char) (before : Option Char) :
    (c :: run).getLast?.or before = run.getLast?.or (some c) := by
  rw [List.getLast?_cons]
  cases run.getLast? <;> rfl

/-- What is left of a match is passed over. -/
theorem occurrencesFrom_skip (run : List Char) :
    occurrencesFrom rounds pattern run.length before (run ++ rest) =
      occurrencesFrom rounds pattern 0 (run.getLast?.or before) rest := by
  induction run generalizing before with
  | nil => rfl
  | cons c run ih =>
    rw [List.length_cons, List.cons_append, occurrencesFrom, ih, getLast?_cons_or]

end Scan

theorem exists_of_mem_occurrencesFrom {rounds : Nat} {pattern : Pattern} {q : Place}
    {passed rest : List Char} {skip : Nat}
    (h : q ∈ occurrencesFrom rounds pattern skip passed.getLast? rest) :
    ∃ p : Place, p.In (passed ++ rest) ∧ p.rest.length ≤ rest.length ∧
      (ends rounds pattern p).head? = some q := by
  induction rest generalizing skip passed with
  | nil => cases h
  | cons c rest ih =>
    have hlater (skip : Nat) (h : q ∈ occurrencesFrom rounds pattern skip (some c) rest) :
        ∃ p : Place, p.In (passed ++ c :: rest) ∧ p.rest.length ≤ (c :: rest).length ∧
          (ends rounds pattern p).head? = some q := by
      rw [← List.getLast?_concat (l := passed)] at h
      obtain ⟨p, hin, hlength, hfirst⟩ := ih h
      rw [List.append_assoc, List.singleton_append] at hin
      exact ⟨p, hin, Nat.le_succ_of_le hlength, hfirst⟩
    cases skip with
    | succ skip => exact hlater skip h
    | zero =>
      rw [occurrencesFrom, matchAt_eq] at h
      split at h
      next q' hmatch =>
        rcases List.mem_cons.mp h with rfl | h
        · exact ⟨_, ⟨passed, rfl, rfl⟩, Nat.le_refl _, hmatch⟩
        · exact hlater _ h
      next => exact hlater 0 h

theorem exists_of_mem_occurrences {pattern : Pattern} {text : List Char} {q : Place}
    (h : q ∈ pattern.occurrences text) :
    ∃ p : Place, p.In text ∧ p.rest.length ≤ text.length ∧
      (ends text.length pattern p).head? = some q := by
  rw [occurrences, ← List.getLast?_nil] at h
  exact exists_of_mem_occurrencesFrom h

end Pattern

end BuildAdvisor.Text
