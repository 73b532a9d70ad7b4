import BuildAdvisor.Proofs.Text.Pattern

/-!
Matches that end with a word.

* `opensName`, `NameIn` — the words that are names, and those of a text;
* `Place.inWord` — word characters on both sides: a name never begins or ends there;
* `ends_name` — a name is matched to the end of the word first, else to a place within it;
* `CapturesNames`, `CapturesNames.seq`, `CapturesNames.choice` — patterns whose first match
  captures a name of the text, from places of a kind, and how they are composed;
* `GoesOnFromWordEnd`, `capturesNames_name` — a captured name is whole if what follows it in the
  pattern also matches from the end of the word;
* `FailsInWord`, `outside_of_mem_ends_blanks₁` — what may follow a name, and stand before it.
-/

set_option autoImplicit false

namespace BuildAdvisor.Text

/-- The word begins as a name does. -/
def opensName (word : List Char) : Bool :=
  word.head?.any isNameStart

theorem opensName_cons {c : Char} (rest : List Char) (hc : isWord c = false) :
    opensName (c :: rest) = false := by
  rw [opensName, List.head?_cons, Option.any_some, ← Bool.not_eq_true]
  intro hstart
  rw [isWord_of_isNameStart hstart] at hc
  cases hc

/-- Whether a text begins as a name does is seen in its first word. -/
theorem FirstRun.opensName_eq {text run rest : List Char} (h : FirstRun text run rest) :
    opensName text = opensName run := by
  rw [h.text_eq]
  cases run with
  | cons c run => rfl
  | nil =>
    cases rest with
    | nil => rfl
    | cons c rest => exact opensName_cons rest (h.right c rfl)

theorem ne_nil_of_opensName {word : List Char} (h : opensName word = true) : word ≠ [] := by
  rintro rfl
  cases h

/-- The word stands in the text and is a name. -/
def NameIn (text name : List Char) : Prop :=
  WordIn text name ∧ opensName name = true

/-! ## Places in words -/

namespace Place

/-- The characters on both sides belong to a word, which then is one word. -/
def inWord (p : Place) : Bool :=
  p.before.any isWord && p.rest.head?.any isWord

theorem atWordEdge_eq (p : Place) :
    p.atWordEdge = (p.before.any isWord != p.rest.head?.any isWord) := by
  rw [atWordEdge]
  cases p.before <;> cases p.rest.head? <;> rfl

theorem inWord_of_atWordEdge {p : Place} (h : p.atWordEdge = true) : p.inWord = false := by
  rw [atWordEdge_eq] at h
  rw [inWord]
  cases hb : p.before.any isWord <;> cases hr : p.rest.head?.any isWord <;>
    simp_all

/-- At a word character that is not within a word, a word begins. -/
theorem atWordEdge_of_head {p : Place} (h : p.rest.head?.any isWord = true)
    (hout : p.inWord = false) : p.atWordEdge = true := by
  rw [inWord, h, Bool.and_true] at hout
  rw [atWordEdge_eq, h, hout]
  rfl

theorem inWord_of_before {p : Place} {c : Char} (h : p.before = some c) (hc : isWord c = false) :
    p.inWord = false := by
  rw [inWord, h, Option.any_some, hc, Bool.false_and]

theorem inWord_of_rest {p : Place} (h : ∀ c ∈ p.rest.head?, isWord c = false) :
    p.inWord = false := by
  rw [inWord, any_eq_false_of_forall h, Bool.and_false]

theorem exists_of_inWord {p : Place} (h : p.inWord = true) :
    ∃ c rest, p.rest = c :: rest ∧ isWord c = true := by
  obtain ⟨-, hr⟩ := Bool.and_eq_true_iff.mp h
  cases hrest : p.rest with
  | nil =>
    rw [hrest] at hr
    cases hr
  | cons c rest =>
    rw [hrest] at hr
    exact ⟨c, rest, rfl, hr⟩

theorem rejected_of_inWord {accepts : Char → Bool} {p : Place}
    (haccepts : ∀ c, accepts c = true → isWord c = false) (h : p.inWord = true) :
    ∀ c ∈ p.rest.head?, accepts c = false := by
  obtain ⟨c, rest, hrest, hc⟩ := exists_of_inWord h
  intro d hd
  rw [hrest] at hd
  obtain rfl := Option.some.inj hd
  rw [← Bool.not_eq_true]
  intro hd
  rw [haccepts c hd] at hc
  cases hc

section FirstRun

variable {p : Place} {run rest : List Char}

theorem head?_any_of_firstRun (h : FirstRun p.rest run rest) (hne : run ≠ []) :
    p.rest.head?.any isWord = true := by
  obtain ⟨c, run, rfl⟩ := List.exists_cons_of_ne_nil hne
  rw [h.text_eq, List.cons_append, List.head?_cons, Option.any_some]
  exact h.word c List.mem_cons_self

theorem before_advance (h : FirstRun p.rest run rest) {n : Nat} (hpos : 0 < n)
    (hn : n ≤ run.length) : (p.advance n).before.any isWord = true := by
  have htake : p.rest.take n = run.take n := by
    rw [h.text_eq, List.take_append_of_le_length hn]
  have hne : run.take n ≠ [] := by
    rw [Ne, List.take_eq_nil_iff, not_or]
    exact ⟨hpos.ne', List.ne_nil_of_length_pos (hpos.trans_le hn)⟩
  rw [advance, htake, List.getLast?_eq_some_getLast hne, Option.some_or, Option.any_some]
  exact h.word _ (List.mem_of_mem_take (List.getLast_mem hne))

theorem atWordEdge_advance (h : FirstRun p.rest run rest) (hne : run ≠ []) :
    (p.advance run.length).atWordEdge = true := by
  have hbefore := before_advance h (List.length_pos_iff.mpr hne) (Nat.le_refl _)
  have hnext : (p.advance run.length).rest = rest := by rw [advance, h.text_eq, List.drop_left]
  rw [atWordEdge_eq, hbefore, hnext, any_eq_false_of_forall h.right]
  rfl

theorem inWord_advance (h : FirstRun p.rest run rest) {n : Nat} (hpos : 0 < n)
    (hn : n < run.length) : (p.advance n).inWord = true := by
  have hleft : run.drop n ≠ [] := by rwa [Ne, List.drop_eq_nil_iff, not_le]
  have hnext : FirstRun (p.advance n).rest (run.drop n) rest := h.drop hn.le
  rw [inWord, before_advance h hpos hn.le, head?_any_of_firstRun hnext hleft, Bool.and_self]

/-- A run of word characters that begins here is a word, unless the place lies within one. -/
theorem In.wordIn {text : List Char} (hin : p.In text) (h : FirstRun p.rest run rest)
    (hne : run ≠ []) (hout : p.inWord = false) : WordIn text run := by
  obtain ⟨passed, htext, hlast⟩ := hin
  have hbefore : p.before.any isWord = false := by
    rwa [inWord, head?_any_of_firstRun h hne, Bool.and_true] at hout
  refine ⟨passed, rest, ?_, hne, h.word, ?_, h.right⟩
  · rw [← htext, h.text_eq, List.append_assoc]
  · intro c hc
    rwa [← hlast, Option.mem_def.mp hc, Option.any_some] at hbefore

end FirstRun

/-- The place `n` characters further on, with these characters captured. -/
def behind (n : Nat) (p : Place) : Place :=
  { p.advance n with captured := some (p.rest, n) }

theorem rest_behind (p : Place) (n : Nat) : (p.behind n).rest = p.rest.drop n :=
  rfl

theorem index_behind (p : Place) (n : Nat) : (p.behind n).index = p.index + n :=
  rfl

theorem capturedText_of_behind {p q : Place} {n : Nat}
    (h : q.captured = (p.behind n).captured) : q.capturedText = some (p.rest.take n) := by
  rw [capturedText, h]
  rfl

end Place

/-! ## Names as patterns -/

namespace Pattern

theorem ends_name_eq_nil {rounds : Nat} {p : Place} (h : opensName p.rest = false) :
    ends rounds name p = [] := by
  have hnone : ends rounds (char isNameStart) p = [] := by
    apply ends_char_eq_nil
    intro c hc
    rwa [opensName, Option.mem_def.mp hc, Option.any_some] at h
  rw [name, ends, hnone, List.flatMap_nil]

theorem ends_name {rounds : Nat} {p : Place} {run rest : List Char} (h : FirstRun p.rest run rest)
    (hopens : opensName run = true) (hrounds : p.rest.length ≤ rounds) :
    ∃ shorter, ends rounds name p = p.advance run.length :: shorter ∧
      ∀ q ∈ shorter, ∃ n, 0 < n ∧ n < run.length ∧ q = p.advance n := by
  cases run with
  | nil => cases hopens
  | cons c run =>
    have hone : ends rounds (char isNameStart) p = [p.advance 1] :=
      ends_char_eq_singleton h.text_eq hopens
    have hnext : (p.advance 1).rest = run ++ rest := by simp [Place.advance, h.text_eq]
    have hlength : run.length ≤ rounds := by
      rw [h.text_eq, List.length_append, List.length_cons] at hrounds
      omega
    have hmany := ends_many_char hnext (fun d hd => h.word d (List.mem_cons_of_mem c hd)) h.right
      hlength
    refine ⟨((List.range run.length).map fun n => (p.advance 1).advance n).reverse, ?_, ?_⟩
    · rw [name, ends, hone, List.flatMap_singleton, hmany, List.range_succ, List.map_append,
        List.reverse_append, List.map_singleton, List.reverse_singleton, List.singleton_append,
        Place.advance_advance, List.length_cons, Nat.add_comm 1]
    · intro q hq
      obtain ⟨n, hn, rfl⟩ := List.mem_map.mp (List.mem_reverse.mp hq)
      refine ⟨1 + n, by omega, ?_, Place.advance_advance p 1 n⟩
      have hlt := List.mem_range.mp hn
      rw [List.length_cons]
      omega

theorem ends_capture_name {rounds : Nat} {p : Place} {run rest : List Char}
    (h : FirstRun p.rest run rest) (hopens : opensName run = true)
    (hrounds : p.rest.length ≤ rounds) :
    ∃ shorter, ends rounds (capture name) p = p.behind run.length :: shorter ∧
      ∀ q ∈ shorter, ∃ n, 0 < n ∧ n < run.length ∧ q = p.behind n := by
  obtain ⟨shorter, hends, hshorter⟩ := ends_name h hopens hrounds
  have hbehind (n : Nat) :
      { p.advance n with captured := some (p.rest, (p.advance n).index - p.index) } =
        p.behind n := by
    rw [Place.behind, Place.advance, Nat.add_sub_cancel_left]
  refine ⟨shorter.map fun q => { q with captured := some (p.rest, q.index - p.index) }, ?_, ?_⟩
  · rw [ends, hends, List.map_cons, hbehind]
  · intro q hq
    obtain ⟨r, hr, rfl⟩ := List.mem_map.mp hq
    obtain ⟨n, hpos, hn, rfl⟩ := hshorter r hr
    exact ⟨n, hpos, hn, hbehind n⟩

/-! ## Patterns that capture names -/

/-- Where a first match begins in a place of the given kind, it captures a name of the text. -/
def CapturesNames (start : Place → Prop) (pattern : Pattern) : Prop :=
  ∀ ⦃rounds : Nat⦄ ⦃text : List Char⦄ ⦃p q : Place⦄, p.In text → p.rest.length ≤ rounds →
    start p → (ends rounds pattern p).head? = some q →
    ∃ name, q.capturedText = some name ∧ NameIn text name

/-- Any place. -/
def anywhere (_ : Place) : Prop :=
  True

/-- No word goes on across the place. -/
def outsideWord (p : Place) : Prop :=
  p.inWord = false

variable {start middle : Place → Prop} {first second left right : Pattern}

theorem CapturesNames.seq
    (hfirst : ∀ ⦃rounds p q⦄, start p → q ∈ ends rounds first p → middle q)
    (hsecond : CapturesNames middle second) : CapturesNames start (seq first second) := by
  intro rounds text p q hin hrounds hp hq
  rw [ends, List.head?_flatMap] at hq
  obtain ⟨r, hr, hq⟩ := List.exists_of_findSome?_eq_some hq
  have hahead := ahead_of_mem_ends hr
  exact hsecond (hin.ahead hahead) (hahead.length_le.trans hrounds) (hfirst hp hr) hq

theorem CapturesNames.choice (hleft : CapturesNames start left)
    (hright : CapturesNames start right) : CapturesNames start (choice left right) := by
  intro rounds text p q hin hrounds hp hq
  rw [ends, List.head?_append, Option.or_eq_some_iff] at hq
  rcases hq with hq | ⟨-, hq⟩
  · exact hleft hin hrounds hp hq
  · exact hright hin hrounds hp hq

/-- Where the pattern matches from within a word, it also does from the end of the word. -/
def GoesOnFromWordEnd (pattern : Pattern) : Prop :=
  ∀ ⦃rounds : Nat⦄ ⦃p q : Place⦄, p.inWord = true → q.rest = p.rest.dropWhile isWord →
    ends rounds pattern p ≠ [] → ends rounds pattern q ≠ []

/-- The name up to the end of the word is tried first, and where the pattern does not go on from
there, it does not after a shorter one. -/
theorem head?_ends_name {rounds : Nat} {post : Pattern} {p : Place} {run rest : List Char}
    (hgoes : GoesOnFromWordEnd post) (h : FirstRun p.rest run rest)
    (hopens : opensName run = true) (hrounds : p.rest.length ≤ rounds) :
    (ends rounds (seq (capture name) post) p).head? =
      (ends rounds post (p.behind run.length)).head? := by
  obtain ⟨shorter, hends, hshorter⟩ := ends_capture_name h hopens hrounds
  rw [ends, hends, List.flatMap_cons, List.head?_append]
  cases hlongest : ends rounds post (p.behind run.length) with
  | cons q later => rfl
  | nil =>
    have hnone : shorter.flatMap (ends rounds post) = [] := by
      rw [List.flatMap_eq_nil_iff]
      intro r hr
      obtain ⟨n, hpos, hn, rfl⟩ := hshorter r hr
      by_contra hmatch
      have hwithin : (p.behind n).inWord = true := Place.inWord_advance h hpos hn
      have hdrop : (p.behind run.length).rest = (p.behind n).rest.dropWhile isWord := by
        rw [p.rest_behind, p.rest_behind, (h.drop hn.le).dropWhile_eq, h.text_eq, List.drop_left]
      exact hgoes hwithin hdrop hmatch hlongest
    rw [hnone]
    rfl

theorem capturesNames_name {post : Pattern} (hpost : post.captureless = true)
    (hgoes : GoesOnFromWordEnd post) :
    CapturesNames outsideWord (seq (capture name) post) := by
  intro rounds text p q hin hrounds hout hq
  cases hstart : opensName p.rest with
  | false =>
    rw [ends, ends, ends_name_eq_nil hstart] at hq
    cases hq
  | true =>
    obtain ⟨run, rest, hfirst⟩ := exists_firstRun p.rest
    have hopens : opensName run = true := hfirst.opensName_eq ▸ hstart
    rw [head?_ends_name hgoes hfirst hopens hrounds] at hq
    have hcaptured := captured_of_mem_ends hpost (List.mem_of_head? hq)
    refine ⟨run, ?_, hin.wordIn hfirst (ne_nil_of_opensName hopens) hout, hopens⟩
    rw [Place.capturedText_of_behind hcaptured, hfirst.text_eq, List.take_left]

theorem goesOnFromWordEnd_empty : GoesOnFromWordEnd empty :=
  fun _ _ _ _ _ _ => List.cons_ne_nil _ _

theorem capturesNames_last : CapturesNames outsideWord (capture name) := by
  intro rounds text p q hin hrounds hout hq
  have hempty : ends rounds (seq (capture name) empty) p = ends rounds (capture name) p :=
    List.flatMap_singleton' _
  exact capturesNames_name rfl goesOnFromWordEnd_empty hin hrounds hout (hempty ▸ hq)

theorem CapturesNames.after {first second : Pattern} (h : CapturesNames anywhere second) :
    CapturesNames anywhere (Pattern.seq first second) :=
  .seq (fun _ _ _ _ _ => trivial) h

theorem CapturesNames.nameIn {pattern : Pattern} {text word : List Char}
    (h : CapturesNames anywhere pattern) (hword : word ∈ pattern.captures text) :
    NameIn text word := by
  obtain ⟨q, hq, hcaptured⟩ := List.mem_filterMap.mp hword
  obtain ⟨p, hin, hlength, hfirst⟩ := exists_of_mem_occurrences hq
  obtain ⟨name, hname, hnameIn⟩ := h hin hlength trivial hfirst
  rw [hcaptured] at hname
  obtain rfl := Option.some.inj hname
  exact hnameIn

/-! ## Patterns that fail within words -/

def FailsInWord (pattern : Pattern) : Prop :=
  ∀ ⦃rounds : Nat⦄ ⦃p : Place⦄, p.inWord = true → ends rounds pattern p = []

theorem failsInWord_wordEdge : FailsInWord wordEdge := by
  intro rounds p hwithin
  rw [ends, if_neg]
  intro hedge
  rw [Place.inWord_of_atWordEdge hedge] at hwithin
  cases hwithin

theorem FailsInWord.goesOnFromWordEnd {pattern : Pattern} (h : FailsInWord pattern) :
    GoesOnFromWordEnd pattern :=
  fun _ _ _ hwithin _ hmatch => absurd (h hwithin) hmatch

theorem failsInWord_char {accepts : Char → Bool}
    (haccepts : ∀ c, accepts c = true → isWord c = false) : FailsInWord (char accepts) :=
  fun _ _ hwithin => ends_char_eq_nil (Place.rejected_of_inWord haccepts hwithin)

theorem FailsInWord.before {first : Pattern} (h : FailsInWord first) (second : Pattern) :
    FailsInWord (seq first second) := by
  intro rounds p hwithin
  rw [ends, h hwithin, List.flatMap_nil]

theorem ends_blanks_of_inWord {rounds : Nat} {p : Place} (h : p.inWord = true) :
    ends rounds blanks p = [p] := by
  have hstay : ends rounds blanks p = [p.advance 0] :=
    ends_many_char (List.nil_append p.rest).symm (fun _ hc => nomatch hc)
      (Place.rejected_of_inWord (fun _ => isWord_of_isBlank) h) (Nat.zero_le rounds)
  rwa [Place.advance_zero] at hstay

theorem FailsInWord.after_blanks {second : Pattern} (h : FailsInWord second) :
    FailsInWord (seq blanks second) := by
  intro rounds p hwithin
  rw [ends, ends_blanks_of_inWord hwithin, List.flatMap_singleton, h hwithin]

/-! ## Where prefixes end -/

variable {rounds : Nat} {p q : Place}

theorem outside_of_mem_ends_char {accepts : Char → Bool}
    (haccepts : ∀ c, accepts c = true → isWord c = false) (h : q ∈ ends rounds (char accepts) p) :
    q.inWord = false := by
  obtain ⟨c, hbefore, hc⟩ := before_of_mem_ends_char h
  exact Place.inWord_of_before hbefore (haccepts c hc)

theorem outside_of_mem_ends_many {body : Pattern} {greedy : Bool}
    (hbody : ∀ p, ∀ q ∈ ends rounds body p, q.inWord = false) (hp : p.inWord = false)
    (h : q ∈ ends rounds (many greedy body) p) : q.inWord = false :=
  roundEnds_induction (R := fun r => r.inWord = false) (fun r _ q hq => hbody r q hq) hp h

theorem outside_of_mem_ends_blanks₁ (h : q ∈ ends rounds blanks₁ p) : q.inWord = false := by
  have hblank {p q : Place} (h : q ∈ ends rounds (char isBlank) p) : q.inWord = false :=
    outside_of_mem_ends_char (fun _ => isWord_of_isBlank) h
  obtain ⟨r, hr, hq⟩ := List.mem_flatMap.mp h
  exact outside_of_mem_ends_many (fun _ _ => hblank) (hblank hr) hq

theorem outside_of_mem_ends_wordEdge (h : q ∈ ends rounds wordEdge p) : q.inWord = false := by
  rw [ends] at h
  split at h
  next hedge => rw [List.mem_singleton.mp h, Place.inWord_of_atWordEdge hedge]
  next => cases h

end Pattern

end BuildAdvisor.Text
