import BuildAdvisor.HeaderPath
import Mathlib.Data.List.Infix

/-!
System headers under either separator.

* `occursIn_iff` — a fragment occurs in a path if it is an infix of it;
* `occursIn_withSlashes` — a fragment without backslashes is still there after they have become
  slashes;
* `isSystemHeader_iff` — the three marks of a system header;
* `isSystemHeader_separators` — the separators matter for one marker only, which is itself written
  with backslashes.
-/

set_option autoImplicit false

namespace BuildAdvisor.HeaderPath

variable {needle path : List Char}

/-! ## Fragments -/

theorem occursIn_iff : occursIn needle path = true ↔ needle <:+: path := by
  induction path with
  | nil => rw [occursIn, List.isEmpty_iff, List.infix_nil]
  | cons c rest ih =>
    rw [occursIn, Bool.or_eq_true, List.isPrefixOf_iff_prefix, ih, List.infix_cons_iff]

theorem withSlashes_of_not_mem (h : '\\' ∉ path) : withSlashes path = path := by
  refine (List.map_congr_left fun c hc => ?_).trans (List.map_id path)
  have hne : c ≠ '\\' := fun heq => h (heq ▸ hc)
  rw [if_neg hne, id]

theorem backslash_not_mem_withSlashes (path : List Char) : '\\' ∉ withSlashes path := by
  rw [withSlashes, List.mem_map]
  rintro ⟨c, -, hc⟩
  split at hc
  · exact absurd hc (by decide)
  · contradiction

theorem withSlashes_withSlashes (path : List Char) :
    withSlashes (withSlashes path) = withSlashes path :=
  withSlashes_of_not_mem (backslash_not_mem_withSlashes path)

theorem occursIn_withSlashes (hneedle : '\\' ∉ needle) (h : occursIn needle path = true) :
    occursIn needle (withSlashes path) = true := by
  rw [occursIn_iff] at h ⊢
  have hmap : withSlashes needle <:+: withSlashes path := h.map _
  rwa [withSlashes_of_not_mem hneedle] at hmap

/-! ## Marks of a system header -/

theorem isSystemHeader_iff (path : String) :
    isSystemHeader path = true ↔ isBracketed path.toList = true ∨
      (∃ marker ∈ systemMarkers, occursIn marker.toList path.toList = true ∨
        occursIn marker.toList (withSlashes path.toList) = true) ∨
      isBareName path.toList = true := by
  simp only [isSystemHeader, Bool.or_eq_true, List.any_eq_true, or_assoc]

theorem isBracketed_withSlashes (path : List Char) :
    isBracketed (withSlashes path) = isBracketed path := by
  have hend (c? : Option Char) (b : Char) (hb : b ≠ '/' ∧ b ≠ '\\') :
      (c?.map (fun c => if c = '\\' then '/' else c) == some b) = (c? == some b) := by
    cases c? with
    | none => rfl
    | some c =>
      by_cases hc : c = '\\'
      · simp [hc, hb.1.symm, hb.2.symm]
      · simp [hc]
  rw [isBracketed, isBracketed, withSlashes, List.head?_map, List.getLast?_map,
    hend _ '<' (by decide), hend _ '>' (by decide)]

theorem isBareName_withSlashes (path : List Char) :
    isBareName (withSlashes path) = isBareName path := by
  rw [isBareName, isBareName, withSlashes, List.all_map]
  congr 1
  funext c
  by_cases hc : c = '\\'
  · subst hc
    rfl
  · simp [hc]

/-! ## Separators -/

/-- The path with slashes as its separators. -/
def slashed (path : String) : String :=
  String.ofList (withSlashes path.toList)

theorem toList_slashed (path : String) : (slashed path).toList = withSlashes path.toList :=
  String.toList_ofList

/-- The only marker that is written with backslashes. -/
def backslashMarker : String := "\\VC\\Tools\\MSVC\\"

theorem eq_backslashMarker {marker : String} (h : marker ∈ systemMarkers)
    (hbackslash : '\\' ∈ marker.toList) : marker = backslashMarker := by
  have hall : ∀ m ∈ systemMarkers, '\\' ∉ m.toList ∨ m = backslashMarker := by decide
  exact (hall marker h).resolve_left (not_not_intro hbackslash)

theorem isSystemHeader_of_slashed {path : String} (h : isSystemHeader (slashed path) = true) :
    isSystemHeader path = true := by
  rw [isSystemHeader_iff, toList_slashed, isBracketed_withSlashes, isBareName_withSlashes,
    withSlashes_withSlashes] at h
  rw [isSystemHeader_iff]
  obtain hbracketed | ⟨marker, hm, hoccurs⟩ | hbare := h
  · exact .inl hbracketed
  · exact .inr (.inl ⟨marker, hm, .inr (hoccurs.elim id id)⟩)
  · exact .inr (.inr hbare)

theorem slashed_or_marked {path : String} (h : isSystemHeader path = true) :
    isSystemHeader (slashed path) = true ∨
      occursIn backslashMarker.toList path.toList = true := by
  rw [isSystemHeader_iff] at h
  rw [isSystemHeader_iff, toList_slashed, isBracketed_withSlashes, isBareName_withSlashes]
  obtain hbracketed | ⟨marker, hm, hraw | hslashes⟩ | hbare := h
  · exact .inl (.inl hbracketed)
  · by_cases hbackslash : '\\' ∈ marker.toList
    · obtain rfl := eq_backslashMarker hm hbackslash
      exact .inr hraw
    · exact .inl (.inr (.inl ⟨marker, hm, .inl (occursIn_withSlashes hbackslash hraw)⟩))
  · exact .inl (.inr (.inl ⟨marker, hm, .inl hslashes⟩))
  · exact .inl (.inr (.inr hbare))

/-- A path is a system header's if it is one with slashes, or for the marker with backslashes.  So
the two spellings are told apart where nothing but that marker speaks for the path. -/
theorem isSystemHeader_separators (path : String) :
    isSystemHeader path =
      (isSystemHeader (slashed path) || occursIn backslashMarker.toList path.toList) ∧
    (isSystemHeader (slashed path) = isSystemHeader path ↔
      isSystemHeader (slashed path) = true ∨
        occursIn backslashMarker.toList path.toList = false) := by
  have heq : isSystemHeader path =
      (isSystemHeader (slashed path) || occursIn backslashMarker.toList path.toList) := by
    rw [Bool.eq_iff_iff, Bool.or_eq_true]
    constructor
    · exact slashed_or_marked
    · rintro (h | h)
      · exact isSystemHeader_of_slashed h
      · exact (isSystemHeader_iff path).mpr (.inr (.inl ⟨backslashMarker, by decide, .inl h⟩))
  refine ⟨heq, ?_⟩
  rw [heq]
  cases isSystemHeader (slashed path) <;> cases occursIn backslashMarker.toList path.toList <;>
    decide

/-- A header of a compiler installed outside the directories of the other markers. -/
theorem compilerHeader_with_slashes :
    isSystemHeader "D:\\VC\\Tools\\MSVC\\14.3\\include\\vector.h" = true ∧
      slashed "D:\\VC\\Tools\\MSVC\\14.3\\include\\vector.h" =
        "D:/VC/Tools/MSVC/14.3/include/vector.h" ∧
      isSystemHeader "D:/VC/Tools/MSVC/14.3/include/vector.h" = false := by
  decide +kernel

end BuildAdvisor.HeaderPath
