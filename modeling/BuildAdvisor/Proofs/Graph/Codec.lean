import BuildAdvisor.Graph.Codec
import BuildAdvisor.Proofs.Data.Decode
import BuildAdvisor.Proofs.Graph.Record

/-!
An include graph read back from its data.

* `Edge.ofFields?_of_get` — an edge from its five fields;
* `linkedOfData?_linkedToData` — an edge in a list of edges, with its source;
* `ofData?_toData` — a graph, if the weights of its edges are finite.
-/

set_option autoImplicit false

namespace BuildAdvisor

open Data

theorem EdgeKind.ofData?_toData (k : EdgeKind) : EdgeKind.ofData? k.toData = some k :=
  EdgeKind.ofName?_name k

/-! ## Edges -/

theorem Edge.ofFields?_of_get {f : Fields} {e : Edge} (hweight : e.weight.isFinite = true)
    (hget : ∀ p ∈ e.members, f.get p.1 = some p.2) : Edge.ofFields? f = some e := by
  have htarget := hget ("target", .string e.target) (by simp [Edge.members])
  have hkind := hget ("type", e.kind.toData) (by simp [Edge.members])
  have hline := hget ("line_number", .ofNat e.line.toNat) (by simp [Edge.members])
  have hflagged := hget ("is_system_header", .bool e.flagged) (by simp [Edge.members])
  have hw := hget ("weight", .ofDouble e.weight) (by simp [Edge.members])
  have hread : Value.natural? 32 (.ofNat e.line.toNat) = some e.line.toNat :=
    Value.natural?_ofNat e.line.toNat_lt
  simp only [Edge.ofFields?, Fields.required, Fields.optional, htarget, hkind, hline, hflagged, hw,
    EdgeKind.ofData?_toData, hread, Value.double?_ofDouble hweight, Value.text?, Value.flag?,
    Option.bind_eq_bind, Option.bind_some, UInt32.ofNat_toNat]

namespace Graph

section Linked

variable (source : String) (e : Edge)

theorem linkedToData_readable : (linkedToData source e).readable = true := by
  have hweight : (Value.ofDouble e.weight).readable = true := by
    unfold Value.ofDouble
    split <;> rfl
  simp [linkedToData, Edge.members, Value.record, Value.readable, readableMembers, hweight,
    EdgeKind.toData, Value.ofNat]

theorem linkedToData_depth : (linkedToData source e).depth = 1 := by
  have hweight : (Value.ofDouble e.weight).depth = 0 := by
    unfold Value.ofDouble
    split <;> rfl
  simp [linkedToData, Edge.members, Value.record, Value.depth, depthOfMembers, hweight,
    EdgeKind.toData, Value.ofNat]

theorem linkedOfData?_linkedToData {outer : Nat} (houter : outer + 1 ≤ nestingLimit)
    (hweight : e.weight.isFinite = true) :
    linkedOfData? outer (linkedToData source e) = some (source, e) := by
  obtain ⟨f, hf, hget⟩ : ∃ f : Fields,
      (linkedToData source e).namedFields? ("source" :: Edge.fieldNames) = some f ∧
        ∀ p ∈ ("source", Value.string source) :: e.members, f.get p.1 = some p.2 :=
    Value.exists_namedFields rfl (by decide)
  have hguard : true = true ∧ outer + 1 ≤ nestingLimit := ⟨rfl, houter⟩
  obtain ⟨hsource, hedge⟩ := List.forall_mem_cons.mp hget
  unfold linkedOfData?
  rw [linkedToData_readable, linkedToData_depth, hf, guard, if_pos hguard]
  simp only [Option.pure_def, Option.bind_eq_bind, Option.bind_some, Fields.required, hsource,
    Value.text?]
  rw [Edge.ofFields?_of_get hweight]
  · rfl
  · -- The field of the kind is a name and no object, so its relaxed reading is the field itself.
    intro p hp
    have hp' := hedge p hp
    simp only [Edge.members, List.mem_cons, List.not_mem_nil, or_false] at hp
    rcases hp with rfl | rfl | rfl | rfl | rfl <;> simp only [hp'] <;> rfl

end Linked

/-! ## Graphs -/

theorem Record.ofData?_toData {g : Graph} {outer : Nat} (houter : outer + 3 ≤ nestingLimit)
    (hweights : ∀ p ∈ g.linked, p.2.weight.isFinite = true) :
    Record.ofData? outer g.toData = some g.record := by
  have hedges : Value.list? (linkedOfData? (outer + 2))
      (Value.ofList (fun p => linkedToData p.1 p.2) g.linked) = some g.linked :=
    Value.list?_ofList fun p hp => linkedOfData?_linkedToData p.1 p.2 houter (hweights p hp)
  unfold Record.ofData? toData
  refine Value.read_record rfl (by decide) fun f hget => ?_
  simp only [List.forall_mem_cons] at hget
  simp only [Fields.optional, hget, Value.texts?_strings, hedges, Option.bind_eq_bind,
    Option.bind_some]
  rfl

/-- The weights are asked to be finite because others are written as `null`, which no weight is
read from. -/
theorem Tracks.ofData?_toData {g : Graph} {l : EdgeLog} (h : Tracks g l) {outer : Nat}
    (houter : outer + 3 ≤ nestingLimit) (hweights : ∀ e ∈ g.edges, e.weight.isFinite = true) :
    Graph.ofData? outer g.toData = some g := by
  have hlinked : ∀ p ∈ g.linked, p.2.weight.isFinite = true := by
    intro p hp
    rw [h.linked] at hp
    exact hweights p.2 (h.mem_edges.mpr ⟨p.1, hp⟩)
  unfold Graph.ofData?
  rw [Record.ofData?_toData houter hlinked, Option.map_some, h.toGraph_record]

end Graph

end BuildAdvisor
