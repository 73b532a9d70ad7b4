import BuildAdvisor.Proofs.Checked.Operation

/-!
Pieces of a text by byte positions, with the faults of cutting.

* `cutAt` — a text cut at a position, where a character must begin or the text end;
* `slice` — the piece between two positions;
* `cutAt_append`, `eq_of_cutAt`, `slice_append` — the positions to cut at are the lengths of what is
  before them.
-/

set_option autoImplicit false

namespace BuildAdvisor.Checked

open String (utf8Len)

def cutAt : Nat → List Char → Except Fault (List Char × List Char)
  | 0, text => pure ([], text)
  | _ + 1, [] => .error .outOfRange
  | position + 1, c :: rest =>
    if c.utf8Size ≤ position + 1 then do
      let (before, after) ← cutAt (position + 1 - c.utf8Size) rest
      pure (c :: before, after)
    else .error .outOfRange

example : cutAt 1 ['é', 'h'] = .error .outOfRange := rfl

/-- The first position may not be behind the second. -/
def slice (low high : Nat) (text : List Char) : Except Fault (List Char) := do
  let (before, _) ← cutAt high text
  let (_, piece) ← cutAt low before
  pure piece

theorem utf8Len_pos {text : List Char} (h : text ≠ []) : 0 < utf8Len text :=
  Nat.pos_of_ne_zero fun hz => h (String.utf8Len_eq_zero.mp hz)

theorem cutAt_append (before after : List Char) :
    cutAt (utf8Len before) (before ++ after) = pure (before, after) := by
  induction before with
  | nil =>
    rw [String.utf8Len_nil, List.nil_append, cutAt]
  | cons c rest ih =>
    obtain ⟨n, hn⟩ := Nat.exists_eq_add_one_of_ne_zero (utf8Len_pos (List.cons_ne_nil c rest)).ne'
    rw [hn, List.cons_append, cutAt, ← hn, String.utf8Len_cons, if_pos (Nat.le_add_left _ _),
      Nat.add_sub_cancel, ih, pure_bind]

theorem eq_of_cutAt {position : Nat} {text before after : List Char}
    (h : cutAt position text = pure (before, after)) :
    text = before ++ after ∧ position = utf8Len before := by
  induction text generalizing position before with
  | nil =>
    cases position with
    | zero =>
      obtain ⟨rfl, rfl⟩ := Prod.mk.inj (Except.ok.inj h)
      exact ⟨rfl, rfl⟩
    | succ position => cases h
  | cons c rest ih =>
    cases position with
    | zero =>
      rw [cutAt] at h
      obtain ⟨rfl, rfl⟩ := Prod.mk.inj (Except.ok.inj h)
      exact ⟨rfl, rfl⟩
    | succ position =>
      rw [cutAt] at h
      split at h
      next hle =>
        cases hrest : cutAt (position + 1 - c.utf8Size) rest with
        | error fault =>
          rw [hrest] at h
          cases h
        | ok cut =>
          rw [hrest] at h
          obtain ⟨rfl, rfl⟩ := Prod.mk.inj (Except.ok.inj h)
          obtain ⟨htext, hposition⟩ := ih hrest
          refine ⟨by rw [htext, List.cons_append], ?_⟩
          rw [String.utf8Len_cons, ← hposition]
          omega
      next => cases h

theorem slice_append (before piece after : List Char) :
    slice (utf8Len before) (utf8Len (before ++ piece)) (before ++ piece ++ after) =
      pure piece := by
  simp only [slice, cutAt_append, pure_bind]

theorem utf8Len_concat {c : Char} (hc : c.utf8Size = 1) (text : List Char) :
    utf8Len (text ++ [c]) = utf8Len text + 1 := by
  rw [String.utf8Len_append, String.utf8Len_cons, String.utf8Len_nil, hc]

/-- Behind a character that is stored in one byte. -/
theorem increment_utf8Len {c : Char} (hc : c.utf8Size = 1) {limit : Nat} {text : List Char}
    (h : utf8Len (text ++ [c]) < limit) :
    increment limit (utf8Len text) = pure (utf8Len (text ++ [c])) := by
  rw [utf8Len_concat hc] at h ⊢
  exact increment_eq h

end BuildAdvisor.Checked
