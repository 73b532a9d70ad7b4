import BuildAdvisor.Text.Blank
import BuildAdvisor.Text.Word
import Mathlib.Data.List.Basic
import Mathlib.Data.List.TakeWhile

/-!
The words of a text.

* `isWord_of_isBlank`, `isBlank_of_isWord` — no blank is a word character;
* `FirstRun`, `WordRun`, `WordIn` — a run of word characters that no word character extends, at the
  head of a text or anywhere in it, and the words that stand so in a text;
* `words` — all of them in order, by splitting the text at every other character;
* `words_append_cons`, `FirstRun.words_eq` — words do not reach across such a character, and
  a run that ends there is one word;
* `runs_induction` — what is kept by a run and by any other character holds of every text;
* `mem_words_iff` — splitting finds the maximal runs and nothing else.
-/

set_option autoImplicit false

namespace BuildAdvisor.Text

/-- The blanks by their numbers. -/
def blankCodes : List Nat :=
  [9, 10, 11, 12, 13, 0x20, 0x85, 0xa0, 0x1680, 0x2000, 0x2001, 0x2002, 0x2003, 0x2004, 0x2005,
    0x2006, 0x2007, 0x2008, 0x2009, 0x200a, 0x2028, 0x2029, 0x202f, 0x205f, 0x3000]

theorem isWord_of_isBlank {c : Char} (h : isBlank c = true) : isWord c = false := by
  have hall : ∀ n ∈ blankCodes, isWord (Char.ofNat n) = false := by decide +kernel
  have hcode : c.toNat ∈ blankCodes := by
    simp only [isBlank, Bool.or_eq_true, decide_eq_true_eq, beq_iff_eq] at h
    simp only [blankCodes, List.mem_cons, List.not_mem_nil, or_false]
    omega
  have hc := hall _ hcode
  rwa [Char.ofNat_toNat] at hc

theorem isBlank_of_isWord {c : Char} (h : isWord c = true) : isBlank c = false := by
  rw [← Bool.not_eq_true]
  intro hblank
  rw [isWord_of_isBlank hblank] at h
  cases h

theorem not_of_mem_head?_dropWhile {α : Type} {accepts : α → Bool} {xs : List α} {x : α}
    (h : x ∈ (xs.dropWhile accepts).head?) : accepts x = false := by
  have hnot := List.head?_dropWhile_not accepts xs
  rw [Option.mem_def.mp h] at hnot
  simpa using hnot

theorem any_eq_false_of_forall {accepts : Char → Bool} {o : Option Char}
    (h : ∀ c ∈ o, accepts c = false) : o.any accepts = false := by
  cases o with
  | none => rfl
  | some c => exact h c rfl

/-! ## Runs -/

/-- The text begins with a run of word characters, perhaps an empty one, that ends before `rest`. -/
structure FirstRun (text run rest : List Char) : Prop where
  text_eq : text = run ++ rest
  word : ∀ c ∈ run, isWord c = true
  right : ∀ c ∈ rest.head?, isWord c = false

theorem exists_firstRun (text : List Char) : ∃ run rest, FirstRun text run rest :=
  ⟨text.takeWhile isWord, text.dropWhile isWord, List.takeWhile_append_dropWhile.symm,
    fun _ hc => List.mem_takeWhile_imp hc, fun _ hc => not_of_mem_head?_dropWhile hc⟩

namespace FirstRun

variable {text run rest : List Char}

theorem drop (h : FirstRun text run rest) {n : Nat} (hn : n ≤ run.length) :
    FirstRun (text.drop n) (run.drop n) rest where
  text_eq := by rw [h.text_eq, List.drop_append_of_le_length hn]
  word c hc := h.word c (List.mem_of_mem_drop hc)
  right := h.right

theorem dropWhile_eq (h : FirstRun text run rest) : text.dropWhile isWord = rest := by
  rw [h.text_eq, List.dropWhile_append_of_pos h.word]
  cases rest with
  | nil => rfl
  | cons c rest =>
    exact List.dropWhile_cons_of_neg (by rw [h.right c rfl]; exact Bool.false_ne_true)

end FirstRun

/-- `run` is a run of word characters in a text that no word character extends. -/
structure WordRun (text before run after : List Char) : Prop where
  text_eq : text = before ++ run ++ after
  nonempty : run ≠ []
  word : ∀ c ∈ run, isWord c = true
  left : ∀ c ∈ before.getLast?, isWord c = false
  right : ∀ c ∈ after.head?, isWord c = false

def WordIn (text word : List Char) : Prop :=
  ∃ before after, WordRun text before word after

def words (text : List Char) : List (List Char) :=
  (text.splitOnP fun c => !isWord c).filter fun w => !w.isEmpty

theorem words_nil : words [] = [] := by
  rw [words, List.splitOnP_nil]
  rfl

theorem words_append_cons {c : Char} (hc : isWord c = false) (u v : List Char) :
    words (u ++ c :: v) = words u ++ words v := by
  have hsep : (!isWord c) = true := by rw [hc, Bool.not_false]
  rw [words, List.splitOnP_append_cons u v hsep, List.filter_append]
  rfl

theorem words_cons {c : Char} (hc : isWord c = false) (v : List Char) :
    words (c :: v) = words v := by
  have h := words_append_cons hc [] v
  rwa [words_nil, List.nil_append, List.nil_append] at h

theorem words_of_forall {run : List Char} (hne : run ≠ []) (hrun : ∀ c ∈ run, isWord c = true) :
    words run = [run] := by
  have hsplit : run.splitOnP (fun c => !isWord c) = [run] :=
    List.splitOnP_eq_singleton fun c hc => by rw [hrun c hc, Bool.not_true]
  rw [words, hsplit]
  simp [hne]

/-- A run that ends the text or stands before another character is one word. -/
theorem FirstRun.words_eq {text run rest : List Char} (h : FirstRun text run rest)
    (hne : run ≠ []) : words text = run :: words rest := by
  rw [h.text_eq]
  cases rest with
  | nil => rw [List.append_nil, words_nil, words_of_forall hne h.word]
  | cons c rest =>
    have hc : isWord c = false := h.right c rfl
    rw [words_append_cons hc, words_of_forall hne h.word, words_cons hc, List.singleton_append]

theorem runs_induction {motive : List Char → Prop} (nil : motive [])
    (other : ∀ c rest, isWord c = false → motive rest → motive (c :: rest))
    (run : ∀ text run rest, FirstRun text run rest → run ≠ [] → motive rest → motive text)
    (text : List Char) : motive text := by
  induction hn : text.length using Nat.strong_induction_on generalizing text with
  | _ n ih =>
    subst hn
    obtain ⟨first, rest, hfirst⟩ := exists_firstRun text
    cases first with
    | cons c first =>
      have hshorter : rest.length < text.length := by
        rw [hfirst.text_eq, List.length_append, List.length_cons]
        omega
      exact run _ _ _ hfirst (List.cons_ne_nil c first) (ih _ hshorter rest rfl)
    | nil =>
      obtain rfl : text = rest := hfirst.text_eq
      cases text with
      | nil => exact nil
      | cons c rest => exact other c rest (hfirst.right c rfl) (ih _ (Nat.lt_succ_self _) rest rfl)

/-! ## Words are runs -/

theorem WordRun.cons {text before word after : List Char} (h : WordRun text before word after)
    {c : Char} (hc : isWord c = false) : WordRun (c :: text) (c :: before) word after where
  text_eq := by rw [h.text_eq]; rfl
  nonempty := h.nonempty
  word := h.word
  left d hd := by
    rw [List.getLast?_cons] at hd
    obtain rfl := Option.some.inj (Option.mem_def.mp hd)
    cases hl : before.getLast? with
    | none => rwa [Option.getD_none]
    | some e => rw [Option.getD_some]; exact h.left e hl
  right := h.right

/-- A word of what comes after a run does not begin where the run ends. -/
theorem WordRun.append {text before word after run : List Char}
    (h : WordRun text before word after)
    (htext : ∀ c ∈ text.head?, isWord c = false) :
    WordRun (run ++ text) (run ++ before) word after where
  text_eq := by rw [h.text_eq]; simp
  nonempty := h.nonempty
  word := h.word
  left d hd := by
    cases before with
    | cons c before =>
      rw [List.getLast?_append_of_ne_nil _ (List.cons_ne_nil c before)] at hd
      exact h.left d hd
    | nil =>
      -- The word would begin with a character that is none of a word.
      obtain ⟨c, word, rfl⟩ := List.exists_cons_of_ne_nil h.nonempty
      have hhead : c ∈ text.head? := by rw [h.text_eq]; rfl
      exact absurd (h.word c List.mem_cons_self) (by rw [htext c hhead]; decide)
  right := h.right

theorem wordIn_of_mem_words {text word : List Char} (h : word ∈ words text) :
    WordIn text word := by
  induction text using runs_induction with
  | nil =>
    rw [words_nil] at h
    cases h
  | other c rest hc ih =>
    rw [words_cons hc] at h
    obtain ⟨before, after, hrun⟩ := ih h
    exact ⟨c :: before, after, hrun.cons hc⟩
  | run text run rest hfirst hne ih =>
    rw [hfirst.words_eq hne] at h
    rcases List.mem_cons.mp h with rfl | h
    · exact ⟨[], rest, hfirst.text_eq, hne, hfirst.word, by simp, hfirst.right⟩
    · obtain ⟨before, after, hword⟩ := ih h
      rw [hfirst.text_eq]
      exact ⟨run ++ before, after, hword.append hfirst.right⟩

theorem mem_words_of_wordRun {text before word after : List Char}
    (h : WordRun text before word after) : word ∈ words text := by
  have hfirst : FirstRun (word ++ after) word after := ⟨rfl, h.word, h.right⟩
  have hmem : word ∈ words (word ++ after) := by
    rw [hfirst.words_eq h.nonempty]
    exact List.mem_cons_self
  rcases List.eq_nil_or_concat before with rfl | ⟨front, c, rfl⟩
  · rw [h.text_eq, List.nil_append]
    exact hmem
  · have hc : isWord c = false := h.left c (by simp)
    have htext : text = front ++ c :: (word ++ after) := by rw [h.text_eq]; simp
    rw [htext, words_append_cons hc]
    exact List.mem_append_right _ hmem

theorem mem_words_iff {text word : List Char} : word ∈ words text ↔ WordIn text word :=
  ⟨wordIn_of_mem_words, fun ⟨_, _, h⟩ => mem_words_of_wordRun h⟩

end BuildAdvisor.Text
