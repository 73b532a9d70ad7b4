import BuildAdvisor.Proofs.Template.Compaction
import BuildAdvisor.Proofs.Template.Hotspot
import BuildAdvisor.Scalar.Double

/-!
Which blanks of a name are of no account.

* `BlankRun`, `Loose` — the maximal runs of blanks, and the places in those that touch an end of
  the text or punctuation;
* `tightened` — the text without these places;
* `loose_iff` — whether a place is loose is seen from the first characters on its two sides that
  are not blank, so looseness is decidable;
* `keepTight_append_cons`, `keepTight_plain` — looseness does not reach across punctuation, and
  within a piece it is that of the ends;
* `compact_eq_tightened` — compaction takes away the loose runs and nothing else;
* `spacing_immaterial` — so names that differ in loose runs are one name to every analysis.
-/

set_option autoImplicit false

namespace BuildAdvisor.Template

open BuildAdvisor.Text (isBlank trim trimStart dropWhile_run)

/-! ## Runs of blanks -/

/-- `run` is a run of blanks in a text that no blank extends. -/
structure BlankRun (text before run after : List Char) : Prop where
  text_eq : text = before ++ run ++ after
  blank : ∀ c ∈ run, isBlank c = true
  left : ∀ c ∈ before.getLast?, isBlank c = false
  right : ∀ c ∈ after.head?, isBlank c = false

/-- What stands beside a run: nothing, where the text ends, or a character. -/
def isEdge (beside : Option Char) : Bool :=
  beside.all isPunctuation

/-- The place lies in a maximal run of blanks that touches an end of the text or punctuation. -/
def Loose (text : List Char) (i : Nat) : Prop :=
  ∃ before run after, BlankRun text before run after ∧
    (isEdge before.getLast? = true ∨ isEdge after.head? = true) ∧
    before.length ≤ i ∧ i < before.length + run.length

/-- Looseness as seen from the place: `before` is what stands in front of it, last character
first. -/
def isLoose (before : List Char) (c : Char) (rest : List Char) : Bool :=
  isBlank c && (isEdge (before.dropWhile isBlank).head? || isEdge (rest.dropWhile isBlank).head?)

/-- The run goes back to the last character that is not blank, and on to the next one. -/
theorem loose_of_isLoose {before rest : List Char} {c : Char}
    (h : isLoose before c rest = true) : Loose (before.reverse ++ c :: rest) before.length := by
  simp only [isLoose, Bool.and_eq_true, Bool.or_eq_true] at h
  obtain ⟨hc, hedge⟩ := h
  have hbefore : before.length =
      (before.takeWhile isBlank).length + (before.dropWhile isBlank).length := by
    rw [← List.length_append, List.takeWhile_append_dropWhile]
  refine ⟨(before.dropWhile isBlank).reverse,
    (before.takeWhile isBlank).reverse ++ c :: rest.takeWhile isBlank, rest.dropWhile isBlank,
    ⟨?_, ?_, ?_, fun d hd => not_isBlank_of_head_dropWhile hd⟩, ?_, ?_, ?_⟩
  · rw [← List.append_assoc, ← List.reverse_append, List.takeWhile_append_dropWhile,
      List.append_assoc, List.cons_append, List.takeWhile_append_dropWhile]
  · intro d hd
    rcases List.mem_append.mp hd with hd | hd
    · exact List.mem_takeWhile_imp (List.mem_reverse.mp hd)
    · rcases List.mem_cons.mp hd with rfl | hd
      · exact hc
      · exact List.mem_takeWhile_imp hd
  · intro d hd
    rw [List.getLast?_reverse] at hd
    exact not_isBlank_of_head_dropWhile hd
  · rwa [List.getLast?_reverse]
  · rw [List.length_reverse]
    omega
  · rw [List.length_append, List.length_reverse, List.length_reverse, List.length_cons]
    omega

theorem isLoose_of_loose {before rest : List Char} {c : Char}
    (h : Loose (before.reverse ++ c :: rest) before.length) : isLoose before c rest = true := by
  obtain ⟨front, run, back, ⟨htext, hblank, hleft, hright⟩, hedge, hle, hlt⟩ := h
  -- The run begins at the place or before it, and ends after it.
  have hfront : front <+: front ++ run ++ back := ⟨run ++ back, (List.append_assoc ..).symm⟩
  have hplace : before.reverse ++ [c] <+: front ++ run ++ back := by
    rw [← htext]
    exact ⟨rest, List.append_assoc ..⟩
  obtain ⟨r, hr⟩ : front <+: before.reverse :=
    List.prefix_of_prefix_length_le hfront ⟨c :: rest, htext⟩ (by simpa using hle)
  obtain ⟨s, hs⟩ : before.reverse ++ [c] <+: front ++ run :=
    List.prefix_of_prefix_length_le hplace ⟨back, rfl⟩ (by simpa using Nat.succ_le_of_lt hlt)
  have hrun : run = r ++ c :: s := by
    rw [← hr] at hs
    simpa using hs.symm
  have hrest : rest = s ++ back := by
    rw [← hs] at htext
    simpa using htext
  have hbefore : before = r.reverse ++ front.reverse := by
    rw [← List.reverse_append, hr, List.reverse_reverse]
  subst hrun
  have hr : ∀ d ∈ r.reverse, isBlank d = true := fun d hd =>
    hblank d (List.mem_append_left _ (List.mem_reverse.mp hd))
  have hs : ∀ d ∈ s, isBlank d = true := fun d hd => hblank d (by simp [hd])
  rw [← List.head?_reverse] at hleft hedge
  rw [isLoose, hbefore, hrest, dropWhile_run hr hleft, dropWhile_run hs hright, hblank c (by simp)]
  simpa using hedge

theorem loose_iff (before : List Char) (c : Char) (rest : List Char) :
    Loose (before.reverse ++ c :: rest) before.length ↔ isLoose before c rest = true :=
  ⟨isLoose_of_loose, loose_of_isLoose⟩

/-! ## Tightening -/

theorem not_loose_of_length_le {text : List Char} {i : Nat} (h : text.length ≤ i) :
    ¬ Loose text i := by
  rintro ⟨before, run, after, hrun, -, -, hlt⟩
  rw [hrun.text_eq, List.length_append, List.length_append] at h
  omega

theorem loose_iff_of_drop {text rest : List Char} {c : Char} {i : Nat}
    (h : text.drop i = c :: rest) :
    Loose text i ↔ isLoose (text.take i).reverse c rest = true := by
  have hlt : i < text.length := by
    by_contra hge
    rw [List.drop_eq_nil_of_le (Nat.le_of_not_lt hge)] at h
    cases h
  have htext : text = (text.take i).reverse.reverse ++ c :: rest := by
    rw [List.reverse_reverse, ← h, List.take_append_drop]
  have hlen : (text.take i).reverse.length = i := by
    rw [List.length_reverse, List.length_take, Nat.min_eq_left hlt.le]
  rw [← loose_iff, ← htext, hlen]

instance (text : List Char) (i : Nat) : Decidable (Loose text i) :=
  match h : text.drop i with
  | [] => isFalse (not_loose_of_length_le (List.drop_eq_nil_iff.mp h))
  | c :: rest =>
    decidable_of_iff (isLoose (text.take i).reverse c rest = true) (loose_iff_of_drop h).symm

/-- The text without its loose runs of blanks. -/
def tightened (text : List Char) : List Char :=
  (text.zipIdx.filter fun p => decide (¬ Loose text p.2)).map Prod.fst

/-- What is kept of a text behind `before`, which is read last character first. -/
def keepTight (before : List Char) : List Char → List Char
  | [] => []
  | c :: rest =>
    if isLoose before c rest then keepTight (c :: before) rest
    else c :: keepTight (c :: before) rest

theorem tightened_from (before rest : List Char) :
    ((rest.zipIdx before.length).filter fun p =>
      decide (¬ Loose (before.reverse ++ rest) p.2)).map Prod.fst = keepTight before rest := by
  induction rest generalizing before with
  | nil => rfl
  | cons c rest ih =>
    have hrest := ih (c :: before)
    rw [List.reverse_cons, List.append_assoc, List.singleton_append, List.length_cons] at hrest
    rw [List.zipIdx_cons, List.filter_cons, keepTight]
    cases h : isLoose before c rest with
    | true => simpa [loose_iff, h] using hrest
    | false => simpa [loose_iff, h] using hrest

theorem tightened_eq (text : List Char) : tightened text = keepTight [] text :=
  tightened_from [] text

/-! ## Across punctuation -/

section Punctuation

variable {p : Char} (hp : isPunctuation p = true)

include hp

theorem isEdge_append_cons (u v : List Char) :
    isEdge ((u ++ p :: v).dropWhile isBlank).head? = isEdge (u.dropWhile isBlank).head? := by
  rw [dropWhile_append_cons (isBlank_of_isPunctuation hp)]
  cases u.dropWhile isBlank with
  | nil => exact hp
  | cons c rest => rfl

theorem isLoose_append_cons (before : List Char) (c : Char) (u v : List Char) :
    isLoose before c (u ++ p :: v) = isLoose before c u := by
  rw [isLoose, isEdge_append_cons hp, isLoose]

theorem isLoose_behind (before done : List Char) (c : Char) (rest : List Char) :
    isLoose (before ++ p :: done) c rest = isLoose before c rest := by
  rw [isLoose, isEdge_append_cons hp, isLoose]

theorem keepTight_behind (before done rest : List Char) :
    keepTight (before ++ p :: done) rest = keepTight before rest := by
  induction rest generalizing before with
  | nil => rfl
  | cons c rest ih =>
    rw [keepTight, keepTight, isLoose_behind hp, ← List.cons_append, ih]

theorem keepTight_append_cons (before u v : List Char) :
    keepTight before (u ++ p :: v) = keepTight before u ++ p :: keepTight [] v := by
  induction u generalizing before with
  | nil =>
    have hkeep : ¬ isLoose before p v = true := by
      rw [isLoose, isBlank_of_isPunctuation hp]
      exact Bool.false_ne_true
    have hrest := keepTight_behind hp [] before v
    rw [List.nil_append] at hrest
    simp only [List.nil_append, keepTight, if_neg hkeep, hrest]
  | cons c u ih =>
    rw [List.cons_append, keepTight, keepTight, isLoose_append_cons hp, ih]
    split <;> rfl

end Punctuation

/-! ## Within a piece -/

section Piece

variable {u : List Char} (hu : ∀ c ∈ u, isPunctuation c = false)

include hu

/-- Without punctuation, a run of blanks meets an edge at the ends of the text only. -/
theorem isEdge_plain : isEdge (u.dropWhile isBlank).head? = u.all isBlank := by
  cases h : u.dropWhile isBlank with
  | nil => exact (List.all_eq_true.mpr (List.dropWhile_eq_nil_iff.mp h)).symm
  | cons c rest =>
    have hc : c ∈ u := (List.dropWhile_sublist isBlank).mem (h ▸ List.mem_cons_self)
    have hfirst : c ∈ (u.dropWhile isBlank).head? := by
      rw [h]
      rfl
    have hnot := not_isBlank_of_head_dropWhile hfirst
    exact (hu c hc).trans (List.all_eq_false.mpr ⟨c, hc, by simp [hnot]⟩).symm

/-- Behind a character of the piece, the blanks at its end are what is loose. -/
theorem keepTight_plain_behind {before : List Char}
    (hb : isEdge (before.dropWhile isBlank).head? = false) :
    keepTight before u = u.rdropWhile isBlank := by
  induction u generalizing before with
  | nil => rfl
  | cons c u ih =>
    obtain ⟨hc, hu⟩ := List.forall_mem_cons.mp hu
    cases hblank : isBlank c with
    | false =>
      have hkeep : ¬ isLoose before c u = true := by simp [isLoose, hblank]
      have hnext : isEdge ((c :: before).dropWhile isBlank).head? = false := by
        rw [List.dropWhile_cons_of_neg (by simp [hblank])]
        exact hc
      rw [keepTight, if_neg hkeep, ih hu hnext]
      exact (rdropWhile_append_cons hblank [] u).symm
    | true =>
      have hnext : isEdge ((c :: before).dropWhile isBlank).head? = false := by
        rwa [List.dropWhile_cons_of_pos hblank]
      rw [keepTight, ih hu hnext, rdropWhile_cons hblank, isLoose, hblank, hb, isEdge_plain hu]
      cases h : u.all isBlank with
      | false => rfl
      | true => exact List.rdropWhile_eq_nil_iff.mpr (List.all_eq_true.mp h)

theorem keepTight_plain {before : List Char} (hb : ∀ c ∈ before, isBlank c = true) :
    keepTight before u = trim u := by
  have hstart : isEdge (before.dropWhile isBlank).head? = true := by
    rw [List.dropWhile_eq_nil_iff.mpr hb]
    rfl
  induction u generalizing before with
  | nil => rfl
  | cons c u ih =>
    obtain ⟨hc, hu⟩ := List.forall_mem_cons.mp hu
    cases hblank : isBlank c with
    | false =>
      have hkeep : ¬ isLoose before c u = true := by simp [isLoose, hblank]
      have hnext : isEdge ((c :: before).dropWhile isBlank).head? = false := by
        rw [List.dropWhile_cons_of_neg (by simp [hblank])]
        exact hc
      rw [keepTight, if_neg hkeep, keepTight_plain_behind hu hnext, trim_eq, trimStart,
        List.dropWhile_cons_of_neg (by simp [hblank])]
      exact (rdropWhile_append_cons hblank [] u).symm
    | true =>
      have hdrop : isLoose before c u = true := by simp [isLoose, hblank, hstart]
      have hnext : ∀ d ∈ c :: before, isBlank d = true := List.forall_mem_cons.mpr ⟨hblank, hb⟩
      have hstart : isEdge ((c :: before).dropWhile isBlank).head? = true := by
        rwa [List.dropWhile_cons_of_pos hblank]
      rw [keepTight, if_pos hdrop, ih hu hnext hstart, trim_eq, trim_eq, trimStart, trimStart,
        List.dropWhile_cons_of_pos hblank]

end Piece

/-! ## Names -/

theorem compact_eq_tightened (text : List Char) : compact text = tightened text := by
  rw [tightened_eq]
  have hnone : ∀ c ∈ ([] : List Char), isBlank c = true := fun _ h => absurd h List.not_mem_nil
  induction text using pieces_induction with
  | plain u hu => rw [compact_plain hu, keepTight_plain hu hnone]
  | split u p v hu hp ih =>
    rw [compact_append_cons hp, keepTight_append_cons hp, compact_plain hu,
      keepTight_plain hu hnone, ih]

theorem normalize_congr {m n : String} (h : compact m.toList = compact n.toList) :
    normalize m = normalize n := by
  unfold normalize normalizeChars
  rw [h]

/-- Compaction deletes the maximal runs of blanks that touch an end of the name or punctuation,
and keeps every other character in its place.  Names that agree without these runs have one normal
form, so their instantiations are counted in one hotspot and in no other. -/
theorem spacing_immaterial {α : Type} [Scalar α] (t : Trace α) :
    (∀ text, compact text = tightened text) ∧
    (∀ m n : String, tightened m.toList = tightened n.toList → normalize m = normalize n) ∧
    (∀ r ∈ instantiations t, ∀ s ∈ instantiations t,
      tightened r.2.name.toList = tightened s.2.name.toList →
      ∃ h ∈ hotspots t, r ∈ recordsOf t h.name ∧ s ∈ recordsOf t h.name ∧
        h.count = (recordsOf t h.name).length ∧
        ∀ h' ∈ hotspots t, r ∈ recordsOf t h'.name ∨ s ∈ recordsOf t h'.name → h' = h) ∧
    ∀ text, compact (compact text) = compact text := by
  have hnormal : ∀ m n : String, tightened m.toList = tightened n.toList →
      normalize m = normalize n := by
    intro m n h
    exact normalize_congr (by rw [compact_eq_tightened, compact_eq_tightened, h])
  refine ⟨compact_eq_tightened, hnormal, ?_, compact_compact⟩
  intro r hr s hs htight
  have hsame := hnormal _ _ htight
  obtain ⟨h, hm, hname⟩ := exists_hotspot hr
  obtain ⟨-, -, hcount⟩ := of_gathered (mem_hotspots_iff.mp hm)
  refine ⟨h, hm, mem_recordsOf.mpr ⟨hr, hname.symm⟩,
    mem_recordsOf.mpr ⟨hs, (hname.trans hsame).symm⟩, hcount, ?_⟩
  rintro h' hm' (hr' | hs')
  · exact eq_of_mem_hotspots hm' hm ((mem_recordsOf.mp hr').2.symm.trans hname.symm)
  · exact eq_of_mem_hotspots hm' hm
      ((mem_recordsOf.mp hs').2.symm.trans (hsame.symm.trans hname.symm))

/-- One template written with and without spaces; the blanks between two words stay. -/
def spacedTrace : Trace Float :=
  { (Trace.empty : Trace Float) with
    units := [{ (CompilationUnit.empty : CompilationUnit Float) with
      path := "main.cpp"
      instantiations := [⟨"std::map < std::less , unsigned  long >\u00a0", 2.0, []⟩,
        ⟨"std::map<std::less,unsigned  long>", 3.0, []⟩] }] }

theorem spaced_one_hotspot :
    tightened "std::map < std::less , unsigned  long >\u00a0".toList =
        "std::map<std::less,unsigned  long>".toList ∧
      normalize "std::map < std::less , unsigned  long >\u00a0" = "std::map<std::less,T>" ∧
      ∃ h ∈ hotspots spacedTrace, h.name = "std::map<std::less,T>" ∧ h.count = 2 := by
  have hspaced : tightened "std::map < std::less , unsigned  long >\u00a0".toList =
      "std::map<std::less,unsigned  long>".toList := by decide +kernel
  have htight : tightened "std::map<std::less,unsigned  long>".toList =
      "std::map<std::less,unsigned  long>".toList := by decide +kernel
  have hnormal : normalize "std::map<std::less,unsigned  long>" = "std::map<std::less,T>" := by
    decide +kernel
  obtain ⟨-, hnormalize, hhotspot, -⟩ := spacing_immaterial spacedTrace
  obtain ⟨h, hm, -, hs, hcount, -⟩ := hhotspot _ List.mem_cons_self _
    (List.mem_cons_of_mem _ List.mem_cons_self) (hspaced.trans htight.symm)
  have hname : h.name = "std::map<std::less,T>" := (mem_recordsOf.mp hs).2.symm.trans hnormal
  refine ⟨hspaced, (hnormalize _ _ (hspaced.trans htight.symm)).trans hnormal, h, hm, hname, ?_⟩
  rw [hcount, hname]
  decide +kernel

end BuildAdvisor.Template
