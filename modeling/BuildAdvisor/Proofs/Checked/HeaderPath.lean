import BuildAdvisor.Proofs.Checked.Text
import BuildAdvisor.Proofs.HeaderPath

/-!
The names of a header's parts, with the faults of cutting a text.

* `rfind` — the position of the last character of a kind;
* `partName` — the header cut behind its last separator, and before the last dot of its name;
* `rfind_spec` — a position found is one to cut at;
* `partName_eq` — so the names are those of the header's parts.
-/

set_option autoImplicit false

namespace BuildAdvisor.Checked

open String (utf8Len)

def rfind (p : Char → Bool) : List Char → Option Nat
  | [] => none
  | c :: rest =>
    match rfind p rest with
    | some position => some (c.utf8Size + position)
    | none => if p c then some 0 else none

def isSeparator (c : Char) : Bool :=
  c == '/' || c == '\\'

/-- Separators are stored in one byte. -/
def fileStart (path : List Char) : Except Fault Nat :=
  match rfind isSeparator path with
  | some position => increment UInt64.size position
  | none => pure 0

def partName (header : String) (n : Nat) : Except Fault String := do
  let path := header.toList
  let suffix := "_part".toList ++ Nat.toDigits 10 n
  let start ← fileStart path
  let (_, file) ← cutAt start path
  match rfind (· == '.') file with
  | none => pure (String.ofList (path ++ suffix))
  | some dot =>
    if 0 < dot then do
      let dot ← add UInt64.size start dot
      let (stem, extension) ← cutAt dot path
      pure (String.ofList (stem ++ suffix ++ extension))
    else pure (String.ofList (path ++ suffix))

/-! ## Positions -/

/-- Where a character of the kind is found, none stands behind it. -/
theorem rfind_spec (p : Char → Bool) (text : List Char) :
    match rfind p text with
    | none => ∀ c ∈ text, p c = false
    | some position => ∃ before c after, text = before ++ c :: after ∧ p c = true ∧
        (∀ d ∈ after, p d = false) ∧ position = utf8Len before := by
  induction text with
  | nil => simp [rfind]
  | cons c rest ih =>
    rw [rfind]
    cases h : rfind p rest with
    | some position =>
      rw [h] at ih
      obtain ⟨before, d, after, rfl, hd, hafter, rfl⟩ := ih
      exact ⟨c :: before, d, after, rfl, hd, hafter, Nat.add_comm _ _⟩
    | none =>
      rw [h] at ih
      cases hc : p c with
      | true => exact ⟨[], c, rest, rfl, hc, ih, rfl⟩
      | false => simpa [hc] using ih

/-! ## Names -/

section Span

variable {p q : Char → Bool} (hq : ∀ c, q c = !p c)

include hq

theorem span_reverse_of_forall {text : List Char} (h : ∀ c ∈ text, p c = false) :
    text.reverse.span q = (text.reverse, []) := by
  have hall : ∀ c ∈ text.reverse, q c = true := by
    intro c hc
    rw [hq, h c (List.mem_reverse.mp hc), Bool.not_false]
  rw [List.span_eq_takeWhile_dropWhile, List.takeWhile_eq_self_iff.mpr hall,
    List.dropWhile_eq_nil_iff.mpr hall]

theorem span_reverse_of_last {before after : List Char} {c : Char} (hc : p c = true)
    (hafter : ∀ d ∈ after, p d = false) :
    (before ++ c :: after).reverse.span q = (after.reverse, c :: before.reverse) := by
  have hall : ∀ d ∈ after.reverse, q d = true := by
    intro d hd
    rw [hq, hafter d (List.mem_reverse.mp hd), Bool.not_false]
  have hqc : q c = false := by rw [hq, hc, Bool.not_true]
  rw [List.reverse_append, List.reverse_cons, List.append_assoc, List.singleton_append,
    List.span_eq_takeWhile_dropWhile, List.takeWhile_append_of_pos hall,
    List.dropWhile_append_of_pos hall, List.takeWhile_cons_of_neg (by simp [hqc]),
    List.dropWhile_cons_of_neg (by simp [hqc]), List.append_nil]

end Span

theorem fileStart_eq {path : List Char} (h : utf8Len path < UInt64.size) :
    fileStart path = pure (utf8Len (HeaderPath.splitDirectory path).1) := by
  have hq : ∀ c : Char, (c != '/' && c != '\\') = !isSeparator c := fun c =>
    (Bool.not_or _ _).symm
  have hspec := rfind_spec isSeparator path
  rw [fileStart]
  cases hfound : rfind isSeparator path with
  | none =>
    rw [hfound] at hspec
    simp only [HeaderPath.splitDirectory, span_reverse_of_forall hq hspec]
    rfl
  | some position =>
    rw [hfound] at hspec
    obtain ⟨before, c, after, rfl, hc, hafter, rfl⟩ := hspec
    have hsize : c.utf8Size = 1 := by
      rw [isSeparator, Bool.or_eq_true, beq_iff_eq, beq_iff_eq] at hc
      rcases hc with rfl | rfl <;> rfl
    have hroom : utf8Len (before ++ [c]) < UInt64.size := by
      rw [List.append_cons, String.utf8Len_append] at h
      omega
    simp only [HeaderPath.splitDirectory, span_reverse_of_last hq hc hafter, List.reverse_cons,
      List.reverse_reverse]
    exact increment_utf8Len hsize hroom

theorem partName_eq_ofList (header : String) (n : Nat) :
    HeaderPath.partName header n = String.ofList (HeaderPath.partStem header ++
      ("_part".toList ++ Nat.toDigits 10 n) ++ HeaderPath.partExtension header) := by
  rw [← HeaderPath.toList_partName, String.ofList_toList]

/-- A name without a dot, or with a leading dot only, is not cut. -/
theorem splitExtension_cases (name : List Char) :
    match rfind (· == '.') name with
    | none => HeaderPath.splitExtension name = (name, [])
    | some dot => ∃ stem extension, name = stem ++ '.' :: extension ∧ dot = utf8Len stem ∧
        HeaderPath.splitExtension name =
          if stem.isEmpty then (name, []) else (stem, '.' :: extension) := by
  have hq : ∀ c : Char, (c != '.') = !(c == '.') := fun c => rfl
  have hspec := rfind_spec (· == '.') name
  cases hfound : rfind (· == '.') name with
  | none =>
    rw [hfound] at hspec
    simp only [HeaderPath.splitExtension, span_reverse_of_forall hq hspec]
  | some dot =>
    rw [hfound] at hspec
    obtain ⟨stem, c, extension, rfl, hc, hextension, rfl⟩ := hspec
    obtain rfl : c = '.' := beq_iff_eq.mp hc
    refine ⟨stem, extension, rfl, rfl, ?_⟩
    simp only [HeaderPath.splitExtension, span_reverse_of_last hq hc hextension,
      List.reverse_reverse, List.isEmpty_reverse]

theorem partName_eq {header : String} (h : header.utf8ByteSize < UInt64.size) (n : Nat) :
    partName header n = pure (HeaderPath.partName header n) := by
  rw [← String.ofList_toList (s := header), String.utf8ByteSize_ofList] at h
  rw [partName, fileStart_eq h, pure_bind, partName_eq_ofList, HeaderPath.partStem,
    HeaderPath.partExtension]
  obtain ⟨directory, file, hsplit⟩ : ∃ directory file,
      HeaderPath.splitDirectory header.toList = (directory, file) := ⟨_, _, rfl⟩
  have hpath : directory ++ file = header.toList := by
    rw [← HeaderPath.splitDirectory_append header.toList, hsplit]
  have hcases := splitExtension_cases file
  rw [← hpath] at h
  rw [hsplit, ← hpath]
  simp only [cutAt_append, pure_bind]
  cases hdot : rfind (· == '.') file with
  | none =>
    rw [hdot] at hcases
    simp only [hcases, List.append_nil]
  | some dot =>
    rw [hdot] at hcases
    obtain ⟨stem, extension, rfl, rfl, hext⟩ := hcases
    cases stem with
    | nil =>
      simp only [hext, String.utf8Len_nil, Nat.lt_irrefl, if_false, List.isEmpty_nil, if_true,
        List.append_nil]
    | cons c rest =>
      have hpos := utf8Len_pos (List.cons_ne_nil c rest)
      have hle : utf8Len directory + utf8Len (c :: rest) < UInt64.size := by
        rw [String.utf8Len_append, String.utf8Len_append] at h
        omega
      have hcut := cutAt_append (directory ++ c :: rest) ('.' :: extension)
      rw [List.append_assoc, String.utf8Len_append] at hcut
      simp only [hpos, if_true, add_eq hle, pure_bind, hcut, hext]
      rfl

end BuildAdvisor.Checked
