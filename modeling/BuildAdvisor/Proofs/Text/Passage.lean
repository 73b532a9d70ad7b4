import BuildAdvisor.Proofs.Text.Name

/-!
The characters that a match passes.

* `Place.Passes` — the characters between two places of a text;
* `exists_of_head?_seq`, `mem_ends_seq` — a match of a sequence, taken apart and put together;
* `passes_char`, `passes_blanks`, `passes_blanks₁`, `passes_literal`, `passes_capture_name` — what
  lies between the start and the end of a match;
* `exists_blanks`, `exists_blanks₁`, `exists_char`, `exists_literal`, `exists_capture_name` — and
  from which texts there is one;
* `occurrencesFrom_match` — how the search goes on behind a match.
-/

set_option autoImplicit false

namespace BuildAdvisor.Text

/-- Between the two places stand these characters. -/
structure Place.Passes (p : Place) (run : List Char) (q : Place) : Prop where
  rest_eq : p.rest = run ++ q.rest
  index_eq : q.index = p.index + run.length

namespace Place

theorem Passes.refl (p : Place) : p.Passes [] p :=
  ⟨rfl, rfl⟩

theorem Passes.trans {p q r : Place} {run later : List Char} (hpq : p.Passes run q)
    (hqr : q.Passes later r) : p.Passes (run ++ later) r where
  rest_eq := by rw [hpq.rest_eq, hqr.rest_eq, List.append_assoc]
  index_eq := by rw [hqr.index_eq, hpq.index_eq, List.length_append, Nat.add_assoc]

theorem passes_advance {p : Place} {run rest : List Char} (h : p.rest = run ++ rest) :
    p.Passes run (p.advance run.length) where
  rest_eq := by rw [advance, h, List.drop_left]
  index_eq := rfl

end Place

namespace Pattern

variable {rounds : Nat} {p q : Place}

/-! ## From an end to the text -/

theorem exists_of_head?_seq {first second : Pattern}
    (h : (ends rounds (seq first second) p).head? = some q) :
    ∃ r ∈ ends rounds first p, (ends rounds second r).head? = some q := by
  rw [ends, List.head?_flatMap] at h
  exact List.exists_of_findSome?_eq_some h

theorem passes_char {accepts : Char → Bool} (h : q ∈ ends rounds (char accepts) p) :
    ∃ c, accepts c = true ∧ p.Passes [c] q := by
  obtain ⟨rfl, c, rest, hrest, hc⟩ := mem_ends_char h
  have htext : p.rest = [c] ++ rest := hrest
  exact ⟨c, hc, Place.passes_advance htext⟩

theorem passes_many_char {accepts : Char → Bool} {greedy : Bool}
    (h : q ∈ ends rounds (many greedy (char accepts)) p) :
    ∃ run, (∀ c ∈ run, accepts c = true) ∧ p.Passes run q := by
  have hstart : ∃ run, (∀ c ∈ run, accepts c = true) ∧ p.Passes run p :=
    ⟨[], List.forall_mem_nil _, .refl p⟩
  refine roundEnds_induction
    (R := fun r => ∃ run, (∀ c ∈ run, accepts c = true) ∧ p.Passes run r) ?_ hstart h
  rintro r ⟨run, hrun, hr⟩ t ht
  obtain ⟨c, hc, hpass⟩ := passes_char ht
  refine ⟨run ++ [c], fun d hd => ?_, hr.trans hpass⟩
  rcases List.mem_append.mp hd with hd | hd
  · exact hrun d hd
  · rwa [List.mem_singleton.mp hd]

theorem passes_blanks (h : q ∈ ends rounds blanks p) :
    ∃ run, (∀ c ∈ run, isBlank c = true) ∧ p.Passes run q :=
  passes_many_char h

theorem passes_blanks₁ (h : q ∈ ends rounds blanks₁ p) :
    ∃ run, run ≠ [] ∧ (∀ c ∈ run, isBlank c = true) ∧ p.Passes run q := by
  obtain ⟨r, hr, hq⟩ := List.mem_flatMap.mp h
  obtain ⟨c, hc, hfirst⟩ := passes_char hr
  obtain ⟨run, hrun, hlater⟩ := passes_many_char hq
  refine ⟨[c] ++ run, List.cons_ne_nil c run, fun d hd => ?_, hfirst.trans hlater⟩
  rcases List.mem_cons.mp hd with rfl | hd
  · exact hc
  · exact hrun d hd

theorem passes_literal {text : String} (h : q ∈ ends rounds (literal text) p) :
    p.Passes text.toList q := by
  obtain ⟨rest, hrest, rfl⟩ := mem_ends_literal h
  exact Place.passes_advance hrest

/-- The preferred end of a name is the end of the word. -/
theorem passes_capture_name (hrounds : p.rest.length ≤ rounds)
    (h : (ends rounds (capture name) p).head? = some q) :
    ∃ word, FirstRun p.rest word q.rest ∧ opensName word = true ∧ p.Passes word q ∧
      q.capturedText = some word := by
  obtain ⟨word, rest, hfirst⟩ := exists_firstRun p.rest
  have hopens : opensName word = true := by
    rw [← hfirst.opensName_eq, ← Bool.not_eq_false]
    intro hnot
    rw [ends, ends_name_eq_nil hnot] at h
    cases h
  obtain ⟨shorter, hends, -⟩ := ends_capture_name hfirst hopens hrounds
  rw [hends] at h
  obtain rfl := Option.some.inj h
  have hpass : p.Passes word (p.behind word.length) :=
    ⟨(Place.passes_advance hfirst.text_eq).rest_eq, rfl⟩
  have hrest : (p.behind word.length).rest = rest := by
    rw [p.rest_behind, hfirst.text_eq, List.drop_left]
  refine ⟨word, by rwa [hrest], hopens, hpass, ?_⟩
  rw [Place.capturedText_of_behind rfl, hfirst.text_eq, List.take_left]

/-! ## From the text to an end -/

theorem mem_ends_seq {first second : Pattern} {r : Place} (hr : r ∈ ends rounds first p)
    (hq : q ∈ ends rounds second r) : q ∈ ends rounds (seq first second) p :=
  List.mem_flatMap.mpr ⟨r, hr, hq⟩

variable {run rest : List Char}

theorem exists_char {accepts : Char → Bool} {c : Char} (hp : p.rest = c :: rest)
    (hc : accepts c = true) : ∃ q ∈ ends rounds (char accepts) p, q.rest = rest := by
  refine ⟨p.advance 1, ?_, by rw [Place.advance, hp]; rfl⟩
  rw [ends_char_eq_singleton hp hc]
  exact List.mem_singleton_self _

theorem exists_blanks (hp : p.rest = run ++ rest) (hrun : ∀ c ∈ run, isBlank c = true)
    (hrest : ∀ c ∈ rest.head?, isBlank c = false) (hrounds : p.rest.length ≤ rounds) :
    ∃ q ∈ ends rounds blanks p, q.rest = rest := by
  have hlength : run.length ≤ rounds := by
    rw [hp, List.length_append] at hrounds
    omega
  refine ⟨p.advance run.length, ?_, by rw [Place.advance, hp, List.drop_left]⟩
  rw [blanks, ends_many_char hp hrun hrest hlength, List.mem_reverse, List.mem_map]
  exact ⟨run.length, List.mem_range.mpr (Nat.lt_succ_self _), rfl⟩

theorem exists_blanks₁ (hp : p.rest = run ++ rest) (hne : run ≠ [])
    (hrun : ∀ c ∈ run, isBlank c = true) (hrest : ∀ c ∈ rest.head?, isBlank c = false)
    (hrounds : p.rest.length ≤ rounds) : ∃ q ∈ ends rounds blanks₁ p, q.rest = rest := by
  obtain ⟨c, run, rfl⟩ := List.exists_cons_of_ne_nil hne
  obtain ⟨q, hq, hqrest⟩ : ∃ q ∈ ends rounds (char isBlank) p, q.rest = _ :=
    exists_char hp (hrun c List.mem_cons_self)
  have hlength : q.rest.length ≤ rounds := (ahead_of_mem_ends hq).length_le.trans hrounds
  obtain ⟨r, hr, hrrest⟩ := exists_blanks hqrest
    (fun d hd => hrun d (List.mem_cons_of_mem c hd)) hrest hlength
  exact ⟨r, mem_ends_seq hq hr, hrrest⟩

theorem exists_chars {cs : List Char} (hp : p.rest = cs ++ rest) :
    ∃ q ∈ ends rounds (cs.foldr (fun c later => seq (char (· == c)) later) empty) p,
      q.rest = rest := by
  induction cs generalizing p with
  | nil => exact ⟨p, List.mem_singleton_self p, hp⟩
  | cons c cs ih =>
    obtain ⟨q, hq, hqrest⟩ : ∃ q ∈ ends rounds (char (· == c)) p, q.rest = _ :=
      exists_char hp (beq_self_eq_true c)
    obtain ⟨r, hr, hrrest⟩ := ih hqrest
    exact ⟨r, mem_ends_seq hq hr, hrrest⟩

theorem exists_literal {text : String} (hp : p.rest = text.toList ++ rest) :
    ∃ q ∈ ends rounds (literal text) p, q.rest = rest :=
  exists_chars hp

theorem exists_capture_name (h : FirstRun p.rest run rest) (hopens : opensName run = true)
    (hrounds : p.rest.length ≤ rounds) : ∃ q, q ∈ ends rounds (capture name) p := by
  obtain ⟨shorter, hends, -⟩ := ends_capture_name h hopens hrounds
  exact ⟨p.behind run.length, hends ▸ List.mem_cons_self⟩

/-! ## The next match -/

/-- Behind a match the search goes on as from the character that the match ends with. -/
theorem occurrencesFrom_match {pattern : Pattern} {before : Option Char} (hne : run ≠ [])
    (h : (ends rounds pattern ⟨before, run ++ rest, 0, none⟩).head? = some q)
    (hindex : q.index = run.length) :
    occurrencesFrom rounds pattern 0 before (run ++ rest) =
      q :: occurrencesFrom rounds pattern 0 (run.getLast?.or before) rest := by
  obtain ⟨c, run, rfl⟩ := List.exists_cons_of_ne_nil hne
  rw [List.cons_append] at h ⊢
  rw [occurrencesFrom_cons_some h, hindex, List.length_cons, Nat.add_sub_cancel,
    occurrencesFrom_skip, getLast?_cons_or]

end Pattern

end BuildAdvisor.Text
