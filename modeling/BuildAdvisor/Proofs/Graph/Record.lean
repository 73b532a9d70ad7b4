import BuildAdvisor.Proofs.Graph.Log

/-!
The flat form of an include graph, there and back.

* `replay_eq` — the queues of a list of edges, replayed by the sources of the list, give the list;
* `Tracks.linked` — so the flat form lists the logged edges in the order in which they came;
* `Tracks.graph_eq` — two graphs are equal if their logs mention the same names and hold the same
  edges;
* `AscendingSet` — names listed once each, in ascending order;
* `record_restores` — a record loses nothing of a graph, and a graph nothing of a record but the
  order and the repeats of its nodes.
-/

set_option autoImplicit false

namespace BuildAdvisor.Graph

/-! ## Replaying -/

/-- The induction runs over the edges: the first one is the head of the queue of its source, and
what remains are the queues of the rest. -/
theorem replay_eq (edges : List (String × Edge)) (queues : Table (List Edge))
    (h : ∀ n, queues.getD n [] = (edges.filter fun p => p.1 == n).map Prod.snd) :
    replay queues (edges.map Prod.fst) = edges := by
  induction edges generalizing queues with
  | nil => rfl
  | cons p rest ih =>
    let later := (rest.filter fun q => q.1 == p.1).map Prod.snd
    have hhead : queues.getD p.1 [] = p.2 :: later := by
      rw [h p.1, List.filter_cons_of_pos (by simp), List.map_cons]
    have hrest : ∀ n, (queues.insert p.1 later).getD n [] =
        (rest.filter fun q => q.1 == n).map Prod.snd := by
      intro n
      rw [Std.ExtTreeMap.getD_insert]
      by_cases hn : p.1 = n
      · subst hn
        rw [if_pos Std.ReflCmp.compare_self]
      · rw [if_neg (by simpa using hn), h n, List.filter_cons_of_neg (by simpa using hn)]
    rw [List.map_cons, replay, hhead]
    exact congrArg (p :: ·) (ih _ hrest)

namespace Tracks

variable {g g' : Graph} {l l' : EdgeLog}

theorem linked (h : Tracks g l) : g.linked = l.edges := by
  unfold Graph.linked
  rw [h.log]
  apply replay_eq
  intro n
  have hmap : (g.outgoing.map fun _ edges => edges.toList).getD n [] = g.edgesFrom n := by
    rw [Std.ExtTreeMap.getD_map, Graph.edgesFrom, Std.ExtTreeMap.getD_eq_getD_getElem?]
    cases g.outgoing[n]? <;> rfl
  rw [hmap, h.edgesFrom n]

/-! ## Equal graphs -/

theorem graph_eq (h : Tracks g l) (h' : Tracks g' l') (hnames : ∀ n, n ∈ l.names ↔ n ∈ l'.names)
    (hedges : l.edges = l'.edges) : g = g' := by
  obtain ⟨names, edges⟩ := l
  obtain ⟨names', edges'⟩ := l'
  obtain rfl : edges = edges' := hedges
  have hout : g.outgoing = g'.outgoing := by
    refine Table.ext_getD #[] (fun n => ?_) fun n => Array.toList_inj.mp ?_
    · rw [h.mem_outgoing, h'.mem_outgoing, hnames]
    · exact (h.edgesFrom n).trans (h'.edgesFrom n).symm
  have hin : g.incoming = g'.incoming := by
    refine Table.ext_getD #[] (fun n => ?_) fun n => Array.toList_inj.mp ?_
    · rw [h.mem_incoming, h'.mem_incoming, hnames]
    · exact (h.dependents n).trans (h'.dependents n).symm
  have hsources : g.sources = g'.sources := Array.toList_inj.mp (h.log.trans h'.log.symm)
  cases g
  cases g'
  rw [Graph.mk.injEq]
  exact ⟨hout, hin, hsources⟩

end Tracks

/-! ## Records -/

structure AscendingSet (xs names : List String) : Prop where
  ascending : xs.Pairwise (· < ·)
  mem_iff : ∀ n, n ∈ xs ↔ n ∈ names

theorem nodes_ascending (g : Graph) : g.nodes.Pairwise (· < ·) :=
  Table.keys_ascending g.outgoing

/-- The nodes that a record lists, and both ends of its edges. -/
def Record.mentioned (r : Record) : List String :=
  r.nodes ++ r.edges.flatMap fun (source, e) => [source, e.target]

theorem tracks_record (r : Record) : Tracks r.toGraph ⟨r.mentioned, r.edges⟩ :=
  tracks_toGraph r

theorem Tracks.record_nodes {g : Graph} {l : EdgeLog} (h : Tracks g l) :
    AscendingSet g.record.nodes l.names where
  ascending := nodes_ascending g
  mem_iff _ := h.mem_nodes

/-- The names that a graph's own record mentions are its nodes, since both ends of every edge
are nodes. -/
theorem Tracks.toGraph_record {g : Graph} {l : EdgeLog} (h : Tracks g l) :
    g.record.toGraph = g := by
  have hedges : g.record.edges = l.edges := h.linked
  refine (tracks_record g.record).graph_eq h ?_ hedges
  intro n
  unfold Record.mentioned
  rw [hedges, List.mem_append, h.record_nodes.mem_iff, List.mem_flatMap]
  constructor
  · rintro (hn | ⟨p, hp, hn⟩)
    · exact hn
    · obtain ⟨hsource, htarget⟩ := h.endpoints p hp
      rcases List.mem_pair.mp hn with rfl | rfl
      · exact hsource
      · exact htarget
  · exact .inl

/-- Whatever was done to a graph, its record lists the nodes once each in ascending order and all
edges as they came, and restores the graph.  The graph of a record has the record's edges, and
its nodes are the names that the record mentions; two records have the same graph exactly if
their edges are the same and they mention the same names, in whatever order and how often. -/
theorem record_restores :
    (∀ ops : List Operation,
      AscendingSet (run ops).record.nodes (EdgeLog.run ops).names ∧
      (run ops).record.edges = (EdgeLog.run ops).edges ∧
      (run ops).record.toGraph = run ops) ∧
    (∀ r : Record, AscendingSet r.toGraph.record.nodes r.mentioned ∧
      r.toGraph.record.edges = r.edges) ∧
    ∀ r r' : Record, r.toGraph = r'.toGraph ↔
      r.edges = r'.edges ∧ ∀ n, n ∈ r.mentioned ↔ n ∈ r'.mentioned := by
  refine ⟨fun ops => ?_, fun r => ?_, fun r r' => ?_⟩
  · have h := tracks_run ops
    exact ⟨h.record_nodes, h.linked, h.toGraph_record⟩
  · have h := tracks_record r
    exact ⟨h.record_nodes, h.linked⟩
  · have h := tracks_record r
    have h' := tracks_record r'
    constructor
    · intro heq
      have hlinked := h.linked
      rw [heq, h'.linked] at hlinked
      refine ⟨hlinked.symm, fun n => ?_⟩
      rw [← h.record_nodes.mem_iff, ← h'.record_nodes.mem_iff, heq]
    · rintro ⟨hedges, hnames⟩
      exact h.graph_eq h' hnames hedges

end BuildAdvisor.Graph
