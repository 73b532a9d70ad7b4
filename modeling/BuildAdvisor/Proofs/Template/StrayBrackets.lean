import BuildAdvisor.Proofs.Template.Arguments

/-!
Names whose brackets need not pair up.

* `Level` — text that has closed as many angle brackets as it has opened;
* `Encloses` — the list that a `<` opens, up to the first bracket behind which the text is level;
* `closeList?_eq_some_iff`, `closeList?_eq_none_iff` — the scanner finds this list, if there is one,
  whatever else the text holds;
* `CutAtCommas` — pieces that make up a text with commas between them, as those of every split do
  (`cutAtCommas_splitFrom`, `joinArguments_splitArguments`).
-/

set_option autoImplicit false

namespace BuildAdvisor.Template

/-! ## The end of a list -/

/-- As many angle brackets have closed as opened. -/
def Level (text : List Char) : Prop :=
  text.count '>' = text.count '<'

instance (text : List Char) : Decidable (Level text) :=
  inferInstanceAs (Decidable (_ = _))

/-- A `<` before `rest` encloses `inner`: since that `<`, the text is level behind the `>` that
follows `inner`, and nowhere before it. -/
structure Encloses (rest inner after : List Char) : Prop where
  rest_eq : rest = inner ++ '>' :: after
  level : Level ('<' :: (inner ++ ['>']))
  first : ∀ read, read <+: inner → ¬ Level ('<' :: read)

/-- What a scan of `rest` finds, where `read` has been read since the list began, of which `inner`
is kept. -/
def Found (read inner rest : List Char) : Option (List Char × List Char) → Prop
  | none => ∀ u, u <+: rest → ¬ Level (read ++ u)
  | some (list, after) => ∃ piece, rest = piece ++ '>' :: after ∧ list = inner.reverse ++ piece ∧
      Level (read ++ (piece ++ ['>'])) ∧ ∀ u, u <+: piece → ¬ Level (read ++ u)

section Found

variable {read inner rest : List Char} {c : Char} {list? : Option (List Char × List Char)}

theorem forall_prefix_cons (hread : ¬ Level read)
    (h : ∀ u, u <+: rest → ¬ Level (read ++ [c] ++ u)) (u : List Char) (hu : u <+: c :: rest) :
    ¬ Level (read ++ u) := by
  rcases List.prefix_cons_iff.mp hu with rfl | ⟨v, rfl, hv⟩
  · rwa [List.append_nil]
  · rw [List.append_cons]
    exact h v hv

theorem Found.cons (hread : ¬ Level read) (h : Found (read ++ [c]) (c :: inner) rest list?) :
    Found read inner (c :: rest) list? := by
  cases list? with
  | none => exact forall_prefix_cons hread h
  | some l =>
    obtain ⟨piece, rfl, hlist, hlevel, hfirst⟩ := h
    refine ⟨c :: piece, rfl, ?_, ?_, forall_prefix_cons hread hfirst⟩
    · rw [hlist, List.reverse_cons, List.append_assoc, List.singleton_append]
    · rwa [List.cons_append, List.append_cons]

end Found

/-- The scanner's depth is what keeps the text from being level; it reaches zero with the text. -/
theorem closeList?_found (read rest inner : List Char) {depth : Nat}
    (h : read.count '<' = read.count '>' + (depth + 1)) :
    Found read inner rest (closeList? depth inner rest) := by
  induction rest generalizing depth read inner with
  | nil =>
    intro u hu
    rw [List.prefix_nil.mp hu, List.append_nil, Level]
    omega
  | cons c rest ih =>
    have hread : ¬ Level read := by
      rw [Level]
      omega
    by_cases hclose : c = '>'
    · subst hclose
      have hcount : (read ++ ['>']).count '>' = read.count '>' + 1 := by simp
      have hsame : (read ++ ['>']).count '<' = read.count '<' := by simp
      cases depth with
      | zero =>
        refine ⟨[], rfl, (List.append_nil _).symm, ?_, ?_⟩
        · rw [List.nil_append, Level]
          omega
        · intro u hu
          rwa [List.prefix_nil.mp hu, List.append_nil]
      | succ depth => exact (ih (read ++ ['>']) ('>' :: inner) (by omega)).cons hread
    · by_cases hopen : c = '<'
      · subst hopen
        have hcount : (read ++ ['<']).count '<' = read.count '<' + 1 := by simp
        have hsame : (read ++ ['<']).count '>' = read.count '>' := by simp
        rw [closeList?_open]
        exact (ih (read ++ ['<']) ('<' :: inner) (by omega)).cons hread
      · have hsame : ∀ d, d ≠ c → (read ++ [c]).count d = read.count d := by
          intro d hd
          rw [List.count_append, List.count_singleton, if_neg (by simpa using hd.symm),
            Nat.add_zero]
        rw [closeList?_cons hopen hclose]
        refine (ih (read ++ [c]) (c :: inner) ?_).cons hread
        rw [hsame '<' (Ne.symm hopen), hsame '>' (Ne.symm hclose), h]

section Encloses

variable {rest inner after inner' after' : List Char}

theorem Encloses.closed_prefix (h : Encloses rest inner after) : inner ++ ['>'] <+: rest :=
  ⟨after, by rw [h.rest_eq, List.append_assoc, List.singleton_append]⟩

theorem Encloses.prefix_of_encloses (h : Encloses rest inner after)
    (h' : Encloses rest inner' after') : inner <+: inner' := by
  have hinner : inner <+: rest := ⟨'>' :: after, h.rest_eq.symm⟩
  have hend := h'.closed_prefix
  have hnot : ¬ inner' ++ ['>'] <+: inner := fun hle => h.first _ hle h'.level
  rcases List.prefix_or_prefix_of_prefix hinner hend with hle | hle
  · rcases List.prefix_concat_iff.mp hle with rfl | hle
    · exact absurd (List.prefix_refl _) hnot
    · exact hle
  · exact absurd hle hnot

theorem Encloses.unique (h : Encloses rest inner after) (h' : Encloses rest inner' after') :
    inner = inner' ∧ after = after' := by
  obtain rfl := (h.prefix_of_encloses h').eq_of_length_le
    (h'.prefix_of_encloses h).length_le
  have hafter := h.rest_eq.symm.trans h'.rest_eq
  exact ⟨rfl, by simpa using hafter⟩

theorem encloses_of_closeList? (h : closeList? 0 [] rest = some (inner, after)) :
    Encloses rest inner after := by
  have hfound : Found ['<'] [] rest (closeList? 0 [] rest) := closeList?_found ['<'] rest [] rfl
  rw [h] at hfound
  obtain ⟨piece, hrest, rfl, hlevel, hfirst⟩ := hfound
  exact ⟨hrest, hlevel, hfirst⟩

theorem closeList?_eq_none_iff :
    closeList? 0 [] rest = none ↔ ∀ read, read <+: rest → ¬ Level ('<' :: read) := by
  constructor
  · intro h
    have hfound : Found ['<'] [] rest (closeList? 0 [] rest) := closeList?_found ['<'] rest [] rfl
    rw [h] at hfound
    exact hfound
  · intro h
    by_contra hne
    obtain ⟨⟨inner, after⟩, hsome⟩ := Option.ne_none_iff_exists'.mp hne
    have henc := encloses_of_closeList? hsome
    exact h _ henc.closed_prefix henc.level

theorem closeList?_eq_some_iff :
    closeList? 0 [] rest = some (inner, after) ↔ Encloses rest inner after := by
  constructor
  · exact encloses_of_closeList?
  · intro h
    cases hscan : closeList? 0 [] rest with
    | none =>
      exact absurd h.level (closeList?_eq_none_iff.mp hscan _ h.closed_prefix)
    | some l =>
      obtain ⟨hinner, hafter⟩ := h.unique (encloses_of_closeList? hscan)
      rw [hinner, hafter]

end Encloses

theorem eq_of_mem_argumentList? {text : List Char} {l : ArgumentList}
    (h : l ∈ argumentList? text) :
    text = l.before ++ '<' :: (l.inner ++ '>' :: l.after) := by
  by_cases hmem : '<' ∈ text
  · obtain ⟨before, rest, rfl, hbefore⟩ := List.eq_append_cons_of_mem hmem
    rw [argumentList?_append_cons hbefore] at h
    obtain ⟨⟨inner, after⟩, hclose, rfl⟩ := Option.map_eq_some_iff.mp h
    rw [(encloses_of_closeList? hclose).rest_eq]
  · rw [argumentList?_of_not_mem hmem] at h
    cases h

/-! ## The pieces of a list -/

/-- Some of the commas of a text are where it is cut into pieces. -/
inductive CutAtCommas : List Char → List (List Char) → Prop
  | last (a : List Char) : CutAtCommas a [a]
  | cons (a : List Char) {text : List Char} {pieces : List (List Char)} :
      CutAtCommas text pieces → CutAtCommas (a ++ ',' :: text) (a :: pieces)

theorem CutAtCommas.joinArguments_eq {text : List Char} {pieces : List (List Char)}
    (h : CutAtCommas text pieces) : joinArguments pieces = text := by
  induction h with
  | last a => exact joinArguments_singleton a
  | cons a h ih =>
    cases h with
    | last b => rw [joinArguments_cons_cons, ih]
    | cons b h => rw [joinArguments_cons_cons, ih]

theorem cutAtCommas_splitFrom (depth : Int32) (piece rest : List Char) :
    CutAtCommas (piece.reverse ++ rest) (splitFrom depth piece rest) := by
  induction rest generalizing depth piece with
  | nil =>
    rw [splitFrom, List.append_nil]
    exact .last piece.reverse
  | cons c rest ih =>
    rw [splitFrom]
    split
    next h =>
      obtain ⟨rfl, -⟩ := h
      exact .cons piece.reverse (ih 0 [])
    next =>
      have hrest := ih (depth + Int32.ofInt (nesting c)) (c :: piece)
      rwa [List.reverse_cons, List.append_assoc, List.singleton_append] at hrest

theorem joinArguments_splitArguments (inner : List Char) :
    joinArguments (splitArguments inner) = inner :=
  (cutAtCommas_splitFrom 0 [] inner).joinArguments_eq

end BuildAdvisor.Template
