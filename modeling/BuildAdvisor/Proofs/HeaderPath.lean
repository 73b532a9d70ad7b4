import BuildAdvisor.HeaderPath
import Mathlib.Data.List.TakeDrop
import Mathlib.Data.List.TakeWhile

/-!
Include directives, and the names of a header's parts.

* `Unbracketed` — a path without the angle brackets at its ends;
* `IsDirective` — the line that includes a header;
* `splitDirectory_append`, `splitExtension_append` — a path is put together again from its pieces;
* `toList_partName` — where the suffix of a part stands;
* `partName_number_injective`, `partName_ne` — parts of one header have different names, none of
  them the header's own.
-/

set_option autoImplicit false

namespace BuildAdvisor.HeaderPath

/-! ## Include directives -/

/-- `bare` is a path without the angle brackets that it begins and ends with, as many as there
are. -/
structure Unbracketed (path bare : List Char) : Prop where
  text_eq : ∃ opening closing,
    path = List.replicate opening '<' ++ (bare ++ List.replicate closing '>')
  first : bare.head? ≠ some '<'
  last : bare.getLast? ≠ some '>'

theorem takeWhile_beq (c : Char) (text : List Char) :
    ∃ n, text.takeWhile (· == c) = List.replicate n c := by
  refine ⟨_, List.eq_replicate_of_mem fun d hd => ?_⟩
  simpa using List.mem_takeWhile_imp hd

theorem head?_dropWhile_beq (c : Char) (text : List Char) :
    (text.dropWhile (· == c)).head? ≠ some c := by
  intro h
  have hnot := List.head?_dropWhile_not (· == c) text
  rw [h] at hnot
  simp at hnot

theorem unbracketed_spec (path : List Char) : Unbracketed path (unbracketed path) := by
  obtain ⟨opening, hopening⟩ := takeWhile_beq '<' path
  obtain ⟨closing, hclosing⟩ := takeWhile_beq '>' (path.dropWhile (· == '<')).reverse
  have hbehind : path.dropWhile (· == '<') = unbracketed path ++ List.replicate closing '>' := by
    rw [← List.reverse_inj, unbracketed, List.reverse_append, List.reverse_reverse,
      List.reverse_replicate, ← hclosing, List.takeWhile_append_dropWhile]
  refine ⟨⟨opening, closing, ?_⟩, fun hfirst => ?_, ?_⟩
  · rw [← hbehind, ← hopening, List.takeWhile_append_dropWhile]
  · refine head?_dropWhile_beq '<' path ?_
    rw [hbehind, List.head?_append, hfirst, Option.some_or]
  · rw [unbracketed, List.getLast?_reverse]
    exact head?_dropWhile_beq '>' _

/-- A line that includes a system header in angle brackets, and any other one in quotes. -/
def IsDirective (header line : String) : Prop :=
  ∃ bare : String, Unbracketed header.toList bare.toList ∧
    line = if isSystemHeader header = true then "#include <" ++ bare ++ ">\n"
      else "#include \"" ++ bare ++ "\"\n"

theorem includeDirective_spec (header : String) :
    IsDirective header (includeDirective header ++ "\n") := by
  refine ⟨String.ofList (unbracketed header.toList), ?_, ?_⟩
  · rw [String.toList_ofList]
    exact unbracketed_spec _
  · rw [includeDirective]
    split
    · exact String.append_assoc
    · exact String.append_assoc

/-! ## Paths in pieces -/

theorem splitDirectory_append (path : List Char) :
    (splitDirectory path).1 ++ (splitDirectory path).2 = path := by
  simp only [splitDirectory, List.span_eq_takeWhile_dropWhile]
  rw [← List.reverse_append, List.takeWhile_append_dropWhile, List.reverse_reverse]

theorem splitExtension_append (name : List Char) :
    (splitExtension name).1 ++ (splitExtension name).2 = name := by
  rw [splitExtension, List.span_eq_takeWhile_dropWhile]
  split
  next extension stem he =>
    split
    · rw [List.append_nil]
    · obtain ⟨h1, h2⟩ := Prod.mk.inj he
      have hr : extension ++ '.' :: stem = name.reverse := by
        rw [← h1, ← h2, List.takeWhile_append_dropWhile]
      rw [← List.reverse_reverse name, ← hr]
      simp
  next => rw [List.append_nil]

/-! ## Parts -/

/-- The path before the suffix of a part. -/
def partStem (header : String) : List Char :=
  (splitDirectory header.toList).1 ++ (splitExtension (splitDirectory header.toList).2).1

/-- The path behind the suffix of a part. -/
def partExtension (header : String) : List Char :=
  (splitExtension (splitDirectory header.toList).2).2

theorem partStem_append (header : String) :
    partStem header ++ partExtension header = header.toList := by
  rw [partStem, partExtension, List.append_assoc, splitExtension_append, splitDirectory_append]

theorem toList_partName (header : String) (n : Nat) :
    (partName header n).toList =
      partStem header ++ ("_part".toList ++ Nat.toDigits 10 n) ++ partExtension header := by
  simp [partName, partStem, partExtension]

theorem toDigits_injective {m n : Nat} (h : Nat.toDigits 10 m = Nat.toDigits 10 n) : m = n := by
  have hd := congrArg (fun digits => Nat.ofDigitChars 10 digits 0) h
  simpa using hd

theorem partName_number_injective {header : String} {m n : Nat}
    (h : partName header m = partName header n) : m = n := by
  have hl := congrArg String.toList h
  rw [toList_partName, toList_partName] at hl
  exact toDigits_injective (List.append_cancel_left (List.append_cancel_left
    (List.append_cancel_right hl)))

/-- A part's name is longer than the header's. -/
theorem partName_ne (header : String) (n : Nat) : partName header n ≠ header := by
  intro h
  have hl := congrArg (fun name => name.toList.length) h
  simp only [toList_partName] at hl
  rw [← partStem_append header] at hl
  simp at hl
  omega

end BuildAdvisor.HeaderPath
