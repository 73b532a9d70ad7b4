import BuildAdvisor.Advisor.BuiltIn
import BuildAdvisor.Decimal.Layout
import BuildAdvisor.Proofs.Pch.Selection
import BuildAdvisor.Proofs.Scalar.Quotient

/-!
Headers at the least share of units that a selection asks for.

A header is selected by comparing its edges with the units times the ratio, but the share reported
for it is the edges over the units, and both are rounded.

* `shareOf`, `additionFinding_confidence` — the share as it is computed for the report;
* `Ordinary` — headers of which nothing but the share is asked;
* `Ordinary.qualifies_of_ratio_lt_share` — a share above the ratio is enough;
* `left_out_iff_at_boundary` — a share equal to the ratio is enough unless the product comes out
  above the number of edges;
* `coreHeader_left_out` — seven edges are 0.28 of twenty-five units, and not enough for 0.28.
-/

set_option autoImplicit false

namespace BuildAdvisor.Pch

open BuildAdvisor.Graph

def shareOf (t : Trace Float) (edges : List (String × Edge)) (header : String) : Float :=
  ((edgesInto edges header).length : Float) / (t.units.length : Float)

/-- Edges that are repeated count each time, so the report brings the share down to one. -/
theorem additionFinding_confidence (t : Trace Float) {g : Graph} {l : EdgeLog} (h : Tracks g l)
    (header : String) :
    (Advisor.additionFinding t.units.length g (rated t g header)).confidence =
      Scalar.clampUnit (shareOf t l.edges header) := by
  rw [shareOf, ← inclusionCount_eq_edgesInto h]
  rfl

/-- A header of which the share alone decides whether it is selected: units include it, by edges
without a flag, and a machine word counts both. -/
structure Ordinary (t : Trace Float) (edges : List (String × Edge)) (header : String) : Prop where
  units : t.units ≠ []
  unitsFit : t.units.length < UInt64.size
  included : edgesInto edges header ≠ []
  edgesFit : (edgesInto edges header).length < UInt64.size
  ordinary : HeaderPath.isSystemHeader header = false
  unflagged : ∀ p ∈ edgesInto edges header, p.2.flagged = false

section Share

variable {t : Trace Float} {edges : List (String × Edge)} {ratio : Float} {header : String}

theorem Ordinary.qualifies_iff (h : Ordinary t edges header) :
    Qualifies t edges ratio header ↔
      (t.units.length : Float) * ratio ≤ ((edgesInto edges header).length : Float) :=
  ⟨fun q => q.enough, fun henough => ⟨h.units, h.included, henough, h.ordinary, h.unflagged⟩⟩

theorem Ordinary.qualifies_of_ratio_lt_share (h : Ordinary t edges header)
    (hshare : ratio < shareOf t edges header) : Qualifies t edges ratio header :=
  h.qualifies_iff.mpr (Double.count_mul_le_of_lt_div (List.length_pos_of_ne_nil h.units) h.unitsFit
    (List.length_pos_of_ne_nil h.included) h.edgesFit hshare)

/-- Above the ratio the share is enough, so one that is not enough and not below equals it. -/
theorem Ordinary.share_eq_of_not_qualifies (h : Ordinary t edges header)
    (hshare : ratio ≤ shareOf t edges header) (hnot : ¬ Qualifies t edges ratio header) :
    (ratio == shareOf t edges header) = true := by
  have hless : ¬ ratio < shareOf t edges header := fun hlt =>
    hnot (h.qualifies_of_ratio_lt_share hlt)
  obtain ⟨hratio, hnumber⟩ := Double.isNaN_eq_false_of_le hshare
  have hback : shareOf t edges header ≤ ratio := by
    rcases Double.not_lt_iff.mp hless with hle | hnan | hnan
    · exact hle
    · exact absurd hnan (Bool.eq_false_iff.mp hratio)
    · exact absurd hnan (Bool.eq_false_iff.mp hnumber)
  exact Double.beq_of_le_of_le hshare hback

end Share

/-- A header whose share reaches the ratio is left out only where the two are equal and the
comparison of products goes the other way. -/
theorem left_out_iff_at_boundary (ops : List Operation) (t : Trace Float) (ratio : Float)
    (header : String) (h : Ordinary t (EdgeLog.run ops).edges header)
    (hshare : ratio ≤ shareOf t (EdgeLog.run ops).edges header) :
    (Advisor.additionFinding t.units.length (run ops) (rated t (run ops) header)).confidence =
        Scalar.clampUnit (shareOf t (EdgeLog.run ops).edges header) ∧
      (header ∉ (ranked t (run ops) ratio).map Candidate.header ↔
        (ratio == shareOf t (EdgeLog.run ops).edges header) = true ∧
          ¬ (t.units.length : Float) * ratio ≤
            ((edgesInto (EdgeLog.run ops).edges header).length : Float)) := by
  refine ⟨additionFinding_confidence t (tracks_run ops) header, ?_⟩
  rw [mem_ranked_headers_iff t (tracks_run ops) ratio, ← h.qualifies_iff]
  exact ⟨fun hnot => ⟨h.share_eq_of_not_qualifies hshare hnot, hnot⟩, fun hboth => hboth.2⟩

/-- Seven of the units below include the header. -/
def coreOperations : List Operation :=
  (List.range 7).map fun i => .addEdge ("u" ++ Nat.repr i ++ ".cpp") "core.h" .direct

def coreTrace : Trace Float :=
  { (Trace.empty : Trace Float) with
    units := (List.range 25).map fun i =>
      { (CompilationUnit.empty : CompilationUnit Float) with
        path := "u" ++ Nat.repr i ++ ".cpp", total := 100.0, preprocessing := 80.0 } }

theorem coreHeader_edges : (edgesInto (EdgeLog.run coreOperations).edges "core.h").length = 7 ∧
    ∀ p ∈ edgesInto (EdgeLog.run coreOperations).edges "core.h", p.2.flagged = false := by
  decide +kernel

theorem coreHeader_ordinary : Ordinary coreTrace (EdgeLog.run coreOperations).edges "core.h" where
  units := by decide
  unitsFit := by decide
  included := List.ne_nil_of_length_pos (by rw [coreHeader_edges.1]; decide)
  edgesFit := by rw [coreHeader_edges.1]; decide
  ordinary := by decide
  unflagged := coreHeader_edges.2

theorem coreHeader_share : shareOf coreTrace (EdgeLog.run coreOperations).edges "core.h" =
    ((7 : Nat) : Float) / ((25 : Nat) : Float) := by
  rw [shareOf, coreHeader_edges.1]
  rfl

/-- Seven over 25 is 0.28, but 25 times 0.28 is rounded up past seven. -/
theorem seven_of_twentyFive :
    let share := ((7 : Nat) : Float) / ((25 : Nat) : Float)
    (0.28 == share) = true ∧ 0.28 ≤ share ∧ 0.28 ≤ Scalar.clampUnit share ∧
      ¬ ((25 : Nat) : Float) * 0.28 ≤ ((7 : Nat) : Float) ∧
      0.25 ≤ share ∧ ¬ (0.25 == share) = true := by
  decide +kernel

/-- Seven edges are 0.28 of twenty-five units, as is reported, but not enough for 0.28. -/
theorem coreHeader_left_out :
    let edges := (EdgeLog.run coreOperations).edges
    Ordinary coreTrace edges "core.h" ∧ coreTrace.units.length = 25 ∧
      (edgesInto edges "core.h").length = 7 ∧ (0.28 : Float) ≤ shareOf coreTrace edges "core.h" ∧
      (0.28 : Float) ≤ (Advisor.additionFinding 25 (run coreOperations)
        (rated coreTrace (run coreOperations) "core.h")).confidence ∧
      "core.h" ∉ (ranked coreTrace (run coreOperations) 0.28).map Candidate.header := by
  intro edges
  obtain ⟨-, hshare, hreported, hproduct, -⟩ := seven_of_twentyFive
  have hunits : coreTrace.units.length = 25 := by decide
  have hconfidence := additionFinding_confidence coreTrace (tracks_run coreOperations) "core.h"
  rw [hunits, coreHeader_share] at hconfidence
  refine ⟨coreHeader_ordinary, hunits, coreHeader_edges.1, ?_, ?_, ?_⟩
  · rwa [coreHeader_share]
  · rwa [hconfidence]
  · rwa [mem_ranked_headers_iff coreTrace (tracks_run coreOperations) 0.28,
      coreHeader_ordinary.qualifies_iff, coreHeader_edges.1, hunits]

/-- It is left out for 0.28 and selected for a quarter. -/
theorem coreHeader_boundary :
    let edges := (EdgeLog.run coreOperations).edges
    ((0.28 == shareOf coreTrace edges "core.h") = true ∧
        "core.h" ∉ (ranked coreTrace (run coreOperations) 0.28).map Candidate.header) ∧
      ((0.25 : Float) ≤ shareOf coreTrace edges "core.h" ∧
        "core.h" ∈ (ranked coreTrace (run coreOperations) 0.25).map Candidate.header) := by
  intro edges
  obtain ⟨hequal, hshare, -, hproduct, hquarter, hless⟩ := seven_of_twentyFive
  rw [← coreHeader_share] at hequal hshare hquarter hless
  have hiff {ratio : Float} (h : ratio ≤ shareOf coreTrace edges "core.h") :=
    (left_out_iff_at_boundary coreOperations coreTrace ratio "core.h" coreHeader_ordinary h).2
  have habove : ¬ (coreTrace.units.length : Float) * 0.28 ≤
      ((edgesInto edges "core.h").length : Float) := by
    rwa [coreHeader_edges.1]
  refine ⟨⟨hequal, (hiff hshare).mpr ⟨hequal, habove⟩⟩, hquarter, ?_⟩
  by_contra hout
  exact hless ((hiff hquarter).mp hout).1

end BuildAdvisor.Pch
