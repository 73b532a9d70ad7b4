import BuildAdvisor.Proofs.HeaderPath
import Mathlib.Data.List.Basic
import Mathlib.Data.List.TakeWhile

/-!
The name of a part tells the header and the part.

* `append_inj_of_getLast?` — a text falls in one way into a piece that ends with a sign of some kind
  and a piece without any; directories, extensions and part numbers are all found so;
* `Pieces`, `Pieces.unique` — how a path divides into directory, stem and extension;
* `pieces_path` — the pieces that a part's name is made from are those;
* `Pieces.part` — the suffix of a part goes to the stem, and the pieces around it stay;
* `partName_identifies` — so the header can be read back from the name.
-/

set_option autoImplicit false

namespace BuildAdvisor.HeaderPath

/-! ## Texts in two pieces -/

section Divided

variable {P : Char → Prop} {a b c d : List Char}

/-- A longer first piece would end inside the other text's second one. -/
theorem eq_nil_of_getLast? {x : List Char} (ha : ∀ y ∈ (a ++ x).getLast?, P y)
    (hx : ∀ y ∈ x ++ d, ¬ P y) : x = [] := by
  by_contra hne
  have hlast : x.getLast hne ∈ (a ++ x).getLast? := by
    rw [List.getLast?_append_of_ne_nil a hne, List.getLast?_eq_some_getLast hne]
    exact Option.mem_some_self _
  exact hx _ (List.mem_append_left d (List.getLast_mem hne)) (ha _ hlast)

theorem append_inj_of_getLast? (h : a ++ c = b ++ d) (ha : ∀ y ∈ a.getLast?, P y)
    (hb : ∀ y ∈ b.getLast?, P y) (hc : ∀ y ∈ c, ¬ P y) (hd : ∀ y ∈ d, ¬ P y) :
    a = b ∧ c = d := by
  rcases List.append_eq_append_iff.mp h with ⟨x, rfl, rfl⟩ | ⟨x, rfl, rfl⟩
  · obtain rfl := eq_nil_of_getLast? hb hc
    exact ⟨(List.append_nil a).symm, rfl⟩
  · obtain rfl := eq_nil_of_getLast? ha hd
    exact ⟨List.append_nil b, rfl⟩

end Divided

/-! ## The pieces of a path -/

def IsSeparator (c : Char) : Prop :=
  c = '/' ∨ c = '\\'

/-- The directory goes up to the last separator, and the extension begins at the last dot of the
file name.  A leading dot begins no extension. -/
structure Pieces (path directory stem extension : List Char) : Prop where
  path_eq : path = directory ++ (stem ++ extension)
  directory : ∀ c ∈ directory.getLast?, IsSeparator c
  file : ∀ c ∈ stem ++ extension, ¬ IsSeparator c
  extension : extension = [] ∧ '.' ∉ stem.tail ∨
    stem ≠ [] ∧ ∃ letters, extension = '.' :: letters ∧ '.' ∉ letters

theorem dot_mem_tail {stem : List Char} (hne : stem ≠ []) (letters : List Char) :
    '.' ∈ (stem ++ '.' :: letters).tail := by
  rw [List.tail_append_of_ne_nil hne]
  exact List.mem_append_right _ List.mem_cons_self

theorem Pieces.unique {path directory stem extension directory' stem' extension' : List Char}
    (h : Pieces path directory stem extension) (h' : Pieces path directory' stem' extension') :
    directory = directory' ∧ stem = stem' ∧ extension = extension' := by
  obtain ⟨hdirectory, hfile⟩ := append_inj_of_getLast? (h.path_eq.symm.trans h'.path_eq)
    h.directory h'.directory h.file h'.file
  refine ⟨hdirectory, ?_⟩
  rcases h.extension with ⟨rfl, hnone⟩ | ⟨hne, letters, rfl, hletters⟩ <;>
    rcases h'.extension with ⟨rfl, hnone'⟩ | ⟨hne', letters', rfl, hletters'⟩
  · rw [List.append_nil, List.append_nil] at hfile
    exact ⟨hfile, rfl⟩
  · rw [List.append_nil] at hfile
    exact absurd (hfile ▸ dot_mem_tail hne' letters') hnone
  · rw [List.append_nil] at hfile
    exact absurd (hfile ▸ dot_mem_tail hne letters) hnone'
  · rw [List.append_cons, List.append_cons stem'] at hfile
    have hends : ∀ s : List Char, ∀ y ∈ (s ++ ['.']).getLast?, y = '.' := by
      intro s y hy
      rw [List.getLast?_concat] at hy
      exact (Option.some.inj hy).symm
    obtain ⟨hstem, hrest⟩ := append_inj_of_getLast? hfile (hends stem) (hends stem')
      (fun y hy he => hletters (he ▸ hy)) (fun y hy he => hletters' (he ▸ hy))
    exact ⟨List.append_cancel_right hstem, congrArg _ hrest⟩

theorem splitDirectory_signs (path : List Char) :
    (∀ c ∈ (splitDirectory path).1.getLast?, IsSeparator c) ∧
      ∀ c ∈ (splitDirectory path).2, ¬ IsSeparator c := by
  have hsign : ∀ c : Char, (c != '/' && c != '\\') = true ↔ ¬ IsSeparator c := by
    intro c
    rw [Bool.and_eq_true, bne_iff_ne, bne_iff_ne, IsSeparator, not_or]
  simp only [splitDirectory, List.span_eq_takeWhile_dropWhile, List.getLast?_reverse,
    List.mem_reverse]
  constructor
  · intro c hc
    have hstop := List.head?_dropWhile_not (fun c => c != '/' && c != '\\') path.reverse
    rw [Option.mem_def.mp hc] at hstop
    exact not_not.mp fun hnot => Bool.false_ne_true (hstop.symm.trans ((hsign c).mpr hnot))
  · intro c hc
    have hall := List.mem_takeWhile_imp hc
    exact (hsign c).mp hall

theorem splitExtension_signs (name : List Char) :
    (splitExtension name).2 = [] ∧ '.' ∉ (splitExtension name).1.tail ∨
      (splitExtension name).1 ≠ [] ∧
        ∃ letters, (splitExtension name).2 = '.' :: letters ∧ '.' ∉ letters := by
  have hletters : '.' ∉ name.reverse.takeWhile (· != '.') := by
    intro hc
    have hall := List.mem_takeWhile_imp hc
    exact absurd hall (by decide)
  have hname : name = (name.reverse.dropWhile (· != '.')).reverse ++
      (name.reverse.takeWhile (· != '.')).reverse := by
    rw [← List.reverse_append, List.takeWhile_append_dropWhile, List.reverse_reverse]
  have hstop := List.head?_dropWhile_not (· != '.') name.reverse
  rw [splitExtension, List.span_eq_takeWhile_dropWhile]
  generalize name.reverse.takeWhile (· != '.') = letters at hletters hname ⊢
  cases hrest : name.reverse.dropWhile (· != '.') with
  | nil =>
    rw [hrest, List.reverse_nil, List.nil_append] at hname
    exact .inl ⟨rfl, fun hc => hletters (List.mem_reverse.mp (hname ▸ List.mem_of_mem_tail hc))⟩
  | cons c stem =>
    rw [hrest] at hstop hname
    obtain rfl : c = '.' := by simpa using hstop
    cases stem with
    | nil =>
      -- The only dot is the first character.
      refine .inl ⟨rfl, fun hc => hletters (List.mem_reverse.mp ?_)⟩
      change '.' ∈ name.tail at hc
      rw [hname] at hc
      exact hc
    | cons d rest =>
      refine .inr ⟨?_, letters.reverse, rfl, fun hc => hletters (List.mem_reverse.mp hc)⟩
      exact mt List.reverse_eq_nil_iff.mp (List.cons_ne_nil d rest)

theorem pieces_path (path : List Char) :
    Pieces path (splitDirectory path).1 (splitExtension (splitDirectory path).2).1
      (splitExtension (splitDirectory path).2).2 where
  path_eq := by rw [splitExtension_append, splitDirectory_append]
  directory := (splitDirectory_signs path).1
  file := by
    rw [splitExtension_append]
    exact (splitDirectory_signs path).2
  extension := splitExtension_signs _

/-! ## The suffix of a part -/

def partSuffix (n : Nat) : List Char :=
  "_part".toList ++ Nat.toDigits 10 n

theorem partSuffix_eq (n : Nat) : partSuffix n = "_part".toList ++ Nat.toDigits 10 n := rfl

theorem isDigit_of_mem_toDigits {n : Nat} {c : Char} (h : c ∈ Nat.toDigits 10 n) :
    c.isDigit = true :=
  Nat.isDigit_of_mem_toDigits (by decide) (by decide) h

/-- No number begins before the last character of a suffix that is not a digit. -/
theorem append_partSuffix_inj {stem stem' : List Char} {m n : Nat}
    (h : stem ++ partSuffix m = stem' ++ partSuffix n) : stem = stem' ∧ m = n := by
  have hword : "_part".toList.getLast? = some 't' := by decide
  have hends : ∀ s : List Char, ∀ c ∈ (s ++ "_part".toList).getLast?, ¬ c.isDigit = true := by
    intro s c hc
    rw [List.getLast?_append, hword, Option.some_or, Option.mem_some_iff] at hc
    subst hc
    decide
  have hdigits : ∀ k, ∀ c ∈ Nat.toDigits 10 k, ¬ ¬ c.isDigit = true :=
    fun _ _ hc => not_not.mpr (isDigit_of_mem_toDigits hc)
  rw [partSuffix_eq, partSuffix_eq, ← List.append_assoc, ← List.append_assoc] at h
  obtain ⟨hstem, hnumber⟩ :=
    append_inj_of_getLast? h (hends stem) (hends stem') (hdigits m) (hdigits n)
  exact ⟨List.append_cancel_right hstem, toDigits_injective hnumber⟩

theorem plain_of_mem_partSuffix {n : Nat} {c : Char} (h : c ∈ partSuffix n) :
    ¬ IsSeparator c ∧ c ≠ '.' := by
  rw [partSuffix_eq, List.mem_append] at h
  rcases h with hword | hdigit
  · have hall : ("_part".toList.all fun c => c != '/' && c != '\\' && c != '.') = true := by decide
    have hc := List.all_eq_true.mp hall c hword
    simp only [Bool.and_eq_true, bne_iff_ne] at hc
    exact ⟨not_or.mpr hc.1, hc.2⟩
  · have hc := isDigit_of_mem_toDigits hdigit
    refine ⟨?_, ?_⟩
    · rintro (rfl | rfl) <;> exact absurd hc (by decide)
    · rintro rfl
      exact absurd hc (by decide)

theorem Pieces.part {path directory stem extension : List Char}
    (h : Pieces path directory stem extension) (n : Nat) :
    Pieces (directory ++ (stem ++ partSuffix n ++ extension)) directory (stem ++ partSuffix n)
      extension where
  path_eq := rfl
  directory := h.directory
  file := by
    intro c hc
    rw [List.append_assoc] at hc
    rcases List.mem_append.mp hc with hstem | hrest
    · exact h.file c (List.mem_append_left _ hstem)
    · rcases List.mem_append.mp hrest with hsuffix | hextension
      · exact (plain_of_mem_partSuffix hsuffix).1
      · exact h.file c (List.mem_append_right _ hextension)
  extension := by
    refine h.extension.imp (fun ⟨hextension, hnone⟩ => ⟨hextension, fun hdot => ?_⟩)
      (fun ⟨hne, hletters⟩ => ⟨List.append_ne_nil_of_left_ne_nil hne _, hletters⟩)
    have hsuffix : '.' ∉ partSuffix n := fun hc => (plain_of_mem_partSuffix hc).2 rfl
    cases stem with
    | nil => exact hsuffix (List.mem_of_mem_tail hdot)
    | cons c rest => exact (List.mem_append.mp hdot).elim hnone hsuffix

/-! ## Names -/

theorem partName_pieces (header : String) (n : Nat) :
    Pieces (partName header n).toList (splitDirectory header.toList).1
      ((splitExtension (splitDirectory header.toList).2).1 ++ partSuffix n)
      (splitExtension (splitDirectory header.toList).2).2 := by
  have h := (pieces_path header.toList).part n
  rw [← List.append_assoc, ← List.append_assoc] at h
  rw [toList_partName]
  exact h

/-- Directory and extension of a part are the header's own. -/
theorem partName_identifies (header header' : String) (m n : Nat) :
    (partName header m = partName header' n ↔ header = header' ∧ m = n) ∧
      ∃ directory stem extension, Pieces header.toList directory stem extension ∧
        Pieces (partName header m).toList directory (stem ++ partSuffix m) extension := by
  refine ⟨⟨fun h => ?_, fun ⟨hh, hn⟩ => hh ▸ hn ▸ rfl⟩,
    _, _, _, pieces_path header.toList, partName_pieces header m⟩
  have hpieces := partName_pieces header m
  rw [h] at hpieces
  obtain ⟨hdirectory, hstem, hextension⟩ := hpieces.unique (partName_pieces header' n)
  obtain ⟨hstem, hnumber⟩ := append_partSuffix_inj hstem
  refine ⟨String.toList_inj.mp ?_, hnumber⟩
  rw [(pieces_path header.toList).path_eq, (pieces_path header'.toList).path_eq, hdirectory, hstem,
    hextension]

/-- Dots in a directory or at the start of a file name begin no extension. -/
example : partName "geo.v2/.conf" 2 = "geo.v2/.conf_part2" := by decide

end BuildAdvisor.HeaderPath
