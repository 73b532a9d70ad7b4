import BuildAdvisor.Graph.Record
import BuildAdvisor.Proofs.Table

/-!
The include graph against a plain log of its edges.

* `Operation`, `Graph.run` — everything that changes a graph, and the graph that a list of
  operations leaves;
* `EdgeLog` — the names mentioned and the edges with their sources, as they came: what a graph
  is to remember, without any index;
* `Tracks` — the two tables and the list of sources agree with a log;
* `tracks_run` — they do so after every list of operations, by `tracks_apply` for one of them;
* `run_refines_log` — so every query is answered from the log.
-/

set_option autoImplicit false

namespace BuildAdvisor.Graph

/-! ## Operations -/

inductive Operation where
  | addNode (node : String)
  | addEdge (source target : String) (kind : EdgeKind)
  | addDependencyEdge (source : String) (e : Edge)
  | clear
  | load (r : Record)

def Operation.apply (g : Graph) : Operation → Graph
  | addNode node => g.addNode node
  | addEdge source target kind => g.addEdge source (Edge.plain target kind)
  | addDependencyEdge source e => g.addEdge source e
  | clear => empty
  | load r => r.toGraph

def run (ops : List Operation) : Graph :=
  ops.foldl Operation.apply empty

/-- `names` may repeat a name; `edges` holds every edge once for each time it was added. -/
structure EdgeLog where
  names : List String
  edges : List (String × Edge)

namespace EdgeLog

def empty : EdgeLog := ⟨[], []⟩

def mention (l : EdgeLog) (names : List String) : EdgeLog :=
  { l with names := l.names ++ names }

/-- Both ends of an edge are mentioned by it. -/
def add (l : EdgeLog) (source : String) (e : Edge) : EdgeLog :=
  ⟨l.names ++ [source, e.target], l.edges ++ [(source, e)]⟩

/-- Loading forgets what was there, as clearing does. -/
def apply (l : EdgeLog) : Operation → EdgeLog
  | .addNode node => l.mention [node]
  | .addEdge source target kind => l.add source (Edge.plain target kind)
  | .addDependencyEdge source e => l.add source e
  | .clear => empty
  | .load r => ⟨r.nodes ++ r.edges.flatMap fun (source, e) => [source, e.target], r.edges⟩

def run (ops : List Operation) : EdgeLog :=
  ops.foldl apply empty

end EdgeLog

/-! ## Tables of lists -/

section Append

variable {β : Type}

theorem mem_append_iff {t : Table (Array β)} {name n : String} {x : β} :
    n ∈ append t name x ↔ n = name ∨ n ∈ t := by
  rw [append, Std.ExtTreeMap.mem_alter]
  by_cases h : n = name
  · simp [h]
  · have hc : compare name n ≠ .eq := by simpa using fun he => h he.symm
    simp [h, hc]

theorem getD_append {t : Table (Array β)} {name n : String} {x : β} :
    ((append t name x).getD n #[]).toList =
      (t.getD n #[]).toList ++ if n = name then [x] else [] := by
  rw [append, Std.ExtTreeMap.getD_alter]
  by_cases h : n = name
  · subst h
    simp [Std.ExtTreeMap.getD_eq_getD_getElem?]
  · have hc : compare name n ≠ .eq := by simpa using fun he => h he.symm
    simp [h, hc]

theorem mem_insertIfNew_iff {t : Table (Array β)} {name n : String} :
    n ∈ t.insertIfNew name #[] ↔ n = name ∨ n ∈ t := by
  rw [Std.ExtTreeMap.mem_insertIfNew, Std.LawfulEqCmp.compare_eq_iff_eq, eq_comm]

/-- The entry of a new node is what an unknown node is taken to have. -/
theorem getD_insertIfNew {t : Table (Array β)} {name n : String} :
    (t.insertIfNew name #[]).getD n #[] = t.getD n #[] := by
  rw [Std.ExtTreeMap.getD_insertIfNew]
  split
  next h =>
    obtain ⟨he, hn⟩ := h
    obtain rfl : name = n := by simpa using he
    rw [Std.ExtTreeMap.getD_eq_fallback hn]
  next => rfl

end Append

/-! ## Growth seen through the views -/

section Growth

variable (g : Graph) (source node n : String) (e : Edge)

@[simp] theorem mem_outgoing_addNode : n ∈ (g.addNode node).outgoing ↔ n = node ∨ n ∈ g.outgoing :=
  mem_insertIfNew_iff

@[simp] theorem mem_incoming_addNode : n ∈ (g.addNode node).incoming ↔ n = node ∨ n ∈ g.incoming :=
  mem_insertIfNew_iff

@[simp] theorem edgesFrom_addNode : (g.addNode node).edgesFrom n = g.edgesFrom n := by
  simp only [edgesFrom, addNode, getD_insertIfNew]

@[simp] theorem dependents_addNode : (g.addNode node).dependents n = g.dependents n := by
  simp only [dependents, addNode, getD_insertIfNew]

@[simp] theorem log_addNode : (g.addNode node).log = g.log := rfl

@[simp] theorem mem_outgoing_addEdge :
    n ∈ (g.addEdge source e).outgoing ↔ n = source ∨ n = e.target ∨ n ∈ g.outgoing := by
  simp only [addEdge, mem_append_iff, mem_outgoing_addNode]
  tauto

@[simp] theorem mem_incoming_addEdge :
    n ∈ (g.addEdge source e).incoming ↔ n = source ∨ n = e.target ∨ n ∈ g.incoming := by
  simp only [addEdge, mem_append_iff, mem_incoming_addNode]
  tauto

@[simp] theorem edgesFrom_addEdge :
    (g.addEdge source e).edgesFrom n = g.edgesFrom n ++ if n = source then [e] else [] := by
  rw [← edgesFrom_addNode g source, ← edgesFrom_addNode (g.addNode source) e.target]
  exact getD_append

@[simp] theorem dependents_addEdge :
    (g.addEdge source e).dependents n = g.dependents n ++ if n = e.target then [source] else [] := by
  rw [← dependents_addNode g source, ← dependents_addNode (g.addNode source) e.target]
  exact getD_append

@[simp] theorem log_addEdge : (g.addEdge source e).log = g.log ++ [source] := by
  simp [log, addEdge, addNode]

end Growth

/-! ## Agreement with a log -/

structure Tracks (g : Graph) (l : EdgeLog) : Prop where
  mem_outgoing : ∀ n, n ∈ g.outgoing ↔ n ∈ l.names
  mem_incoming : ∀ n, n ∈ g.incoming ↔ n ∈ l.names
  edgesFrom : ∀ n, g.edgesFrom n = (l.edges.filter fun p => p.1 == n).map Prod.snd
  dependents : ∀ n, g.dependents n = (l.edges.filter fun p => p.2.target == n).map Prod.fst
  log : g.log = l.edges.map Prod.fst
  endpoints : ∀ p ∈ l.edges, p.1 ∈ l.names ∧ p.2.target ∈ l.names

theorem tracks_empty : Tracks empty EdgeLog.empty where
  mem_outgoing := by simp [empty, EdgeLog.empty]
  mem_incoming := by simp [empty, EdgeLog.empty]
  edgesFrom := by simp [Graph.edgesFrom, empty, EdgeLog.empty]
  dependents := by simp [Graph.dependents, empty, EdgeLog.empty]
  log := rfl
  endpoints := by simp [EdgeLog.empty]

theorem Tracks.addNode {g : Graph} {l : EdgeLog} (h : Tracks g l) (node : String) :
    Tracks (g.addNode node) (l.mention [node]) where
  mem_outgoing n := by simp [h.mem_outgoing n, EdgeLog.mention, or_comm]
  mem_incoming n := by simp [h.mem_incoming n, EdgeLog.mention, or_comm]
  edgesFrom n := by rw [edgesFrom_addNode, h.edgesFrom n]; rfl
  dependents n := by rw [dependents_addNode, h.dependents n]; rfl
  log := h.log
  endpoints p hp := by
    obtain ⟨h1, h2⟩ := h.endpoints p hp
    exact ⟨List.mem_append_left _ h1, List.mem_append_left _ h2⟩

theorem Tracks.addEdge {g : Graph} {l : EdgeLog} (h : Tracks g l) (source : String) (e : Edge) :
    Tracks (g.addEdge source e) (l.add source e) where
  mem_outgoing n := by
    simp only [mem_outgoing_addEdge, h.mem_outgoing n, EdgeLog.add, List.mem_append,
      List.mem_cons, List.not_mem_nil, or_false]
    tauto
  mem_incoming n := by
    simp only [mem_incoming_addEdge, h.mem_incoming n, EdgeLog.add, List.mem_append,
      List.mem_cons, List.not_mem_nil, or_false]
    tauto
  edgesFrom n := by
    rw [edgesFrom_addEdge, h.edgesFrom n]
    by_cases hn : n = source
    · simp [EdgeLog.add, hn]
    · simp [EdgeLog.add, hn, Ne.symm hn]
  dependents n := by
    rw [dependents_addEdge, h.dependents n]
    by_cases hn : n = e.target
    · simp [EdgeLog.add, hn]
    · simp [EdgeLog.add, hn, Ne.symm hn]
  log := by simp [h.log, EdgeLog.add]
  endpoints p hp := by
    rcases List.mem_append.mp hp with hp | hp
    · obtain ⟨h1, h2⟩ := h.endpoints p hp
      exact ⟨List.mem_append_left _ h1, List.mem_append_left _ h2⟩
    · obtain rfl := List.mem_singleton.mp hp
      simp [EdgeLog.add]

/-! ## Loading -/

theorem Tracks.addNodes {g : Graph} {l : EdgeLog} (h : Tracks g l) (nodes : List String) :
    Tracks (nodes.foldl Graph.addNode g) (l.mention nodes) := by
  induction nodes generalizing g l with
  | nil => simpa [EdgeLog.mention] using h
  | cons node rest ih =>
    have hr := ih (h.addNode node)
    simpa [EdgeLog.mention] using hr

theorem Tracks.addEdges {g : Graph} {l : EdgeLog} (h : Tracks g l) (edges : List (String × Edge)) :
    Tracks (edges.foldl (fun g (source, e) => g.addEdge source e) g)
      ⟨l.names ++ edges.flatMap fun (source, e) => [source, e.target], l.edges ++ edges⟩ := by
  induction edges generalizing g l with
  | nil => simpa using h
  | cons p rest ih =>
    have hr := ih (h.addEdge p.1 p.2)
    simpa [EdgeLog.add] using hr

theorem tracks_toGraph (r : Record) : Tracks r.toGraph (EdgeLog.empty.apply (.load r)) := by
  have h := (tracks_empty.addNodes r.nodes).addEdges r.edges
  simpa [Record.toGraph, EdgeLog.apply, EdgeLog.mention, EdgeLog.empty] using h

/-! ## Runs -/

theorem tracks_apply {g : Graph} {l : EdgeLog} (h : Tracks g l) (op : Operation) :
    Tracks (op.apply g) (l.apply op) := by
  cases op with
  | addNode node => exact h.addNode node
  | addEdge source target kind => exact h.addEdge source (Edge.plain target kind)
  | addDependencyEdge source e => exact h.addEdge source e
  | clear => exact tracks_empty
  | load r => exact tracks_toGraph r

theorem tracks_run (ops : List Operation) : Tracks (run ops) (EdgeLog.run ops) := by
  suffices hs : ∀ g l, Tracks g l →
      Tracks (ops.foldl Operation.apply g) (ops.foldl EdgeLog.apply l) from
    hs _ _ tracks_empty
  induction ops with
  | nil => exact fun _ _ h => h
  | cons op rest ih => exact fun _ _ h => ih _ _ (tracks_apply h op)

/-! ## Queries -/

theorem edges_eq (g : Graph) : g.edges = g.nodes.flatMap g.edgesFrom := by
  rw [edges, Table.values_eq_map_keys _ #[], List.flatMap_map]
  rfl

namespace Tracks

variable {g : Graph} {l : EdgeLog}

theorem mem_edgesFrom (h : Tracks g l) {n : String} {e : Edge} :
    e ∈ g.edgesFrom n ↔ (n, e) ∈ l.edges := by
  rw [h.edgesFrom n]
  constructor
  · intro he
    obtain ⟨⟨s, e'⟩, hp, rfl⟩ := List.mem_map.mp he
    obtain ⟨hm, hs⟩ := List.mem_filter.mp hp
    obtain rfl : s = n := by simpa using hs
    exact hm
  · intro hm
    exact List.mem_map.mpr ⟨(n, e), List.mem_filter.mpr ⟨hm, by simp⟩, rfl⟩

theorem hasEdge_iff (h : Tracks g l) {s t : String} :
    g.hasEdge s t = true ↔ ∃ e, (s, e) ∈ l.edges ∧ e.target = t := by
  simp only [hasEdge, List.any_eq_true, h.mem_edgesFrom, beq_iff_eq]

theorem mem_dependents (h : Tracks g l) {m n : String} :
    m ∈ g.dependents n ↔ n ∈ g.dependencies m := by
  simp only [dependencies, h.dependents, h.edgesFrom, List.mem_map, List.mem_filter, beq_iff_eq]
  constructor
  · rintro ⟨⟨s, e⟩, ⟨he, ht⟩, rfl⟩
    exact ⟨e, ⟨(s, e), ⟨he, rfl⟩, rfl⟩, ht⟩
  · rintro ⟨e, ⟨⟨s, e'⟩, ⟨he, rfl⟩, rfl⟩, ht⟩
    exact ⟨(s, e'), ⟨he, ht⟩, rfl⟩

theorem mem_nodes (h : Tracks g l) {n : String} : n ∈ g.nodes ↔ n ∈ l.names := by
  rw [nodes, Std.ExtTreeMap.mem_keys, h.mem_outgoing]

/-- The edges of a graph are those of its nodes, node by node, which reorders the log. -/
theorem edges_perm (h : Tracks g l) : g.edges.Perm (l.edges.map Prod.snd) := by
  have hp := fibres_perm Prod.fst g.nodes l.edges Std.ExtTreeMap.nodup_keys
    fun p hp => h.mem_nodes.mpr (h.endpoints p hp).1
  have he : g.edges = (g.nodes.flatMap fun n => l.edges.filter fun p => p.1 == n).map Prod.snd := by
    rw [edges_eq, List.map_flatMap]
    exact List.flatMap_congr fun n _ => h.edgesFrom n
  rw [he]
  exact hp.map Prod.snd

theorem mem_edges (h : Tracks g l) {e : Edge} : e ∈ g.edges ↔ ∃ s, (s, e) ∈ l.edges := by
  rw [h.edges_perm.mem_iff]
  simp

theorem mem_flaggedHeaders (h : Tracks g l) {n : String} :
    n ∈ g.flaggedHeaders ↔ ∃ p ∈ l.edges, p.2.flagged = true ∧ p.2.target = n := by
  simp only [flaggedHeaders, Names.mem_ofList, List.mem_map, List.mem_filter, h.mem_edges]
  constructor
  · rintro ⟨e, ⟨⟨s, hm⟩, hf⟩, rfl⟩
    exact ⟨(s, e), hm, hf, rfl⟩
  · rintro ⟨⟨s, e⟩, hm, hf, rfl⟩
    exact ⟨e, ⟨⟨s, hm⟩, hf⟩, rfl⟩

theorem edgeCount_eq (h : Tracks g l) : g.edgeCount = l.edges.length := by
  have hl := h.edges_perm.length_eq
  rw [List.length_map, edges, List.length_flatMap] at hl
  rw [edgeCount, ← List.foldl_map, ← List.sum_eq_foldl]
  exact hl

/-- Every edge is counted at its target, once for each time it was added. -/
theorem sum_dependents (h : Tracks g l) :
    (g.nodes.map fun n => (g.dependents n).length).sum = l.edges.length := by
  rw [← sum_fibres (fun p => p.2.target) g.nodes l.edges Std.ExtTreeMap.nodup_keys
      fun p hp => h.mem_nodes.mpr (h.endpoints p hp).2]
  congr 1
  apply List.map_congr_left
  intro n _
  rw [h.dependents n, List.length_map]

theorem edgesFrom_eq_nil (h : Tracks g l) {n : String} (hn : n ∉ l.names) :
    g.edgesFrom n = [] := by
  apply List.eq_nil_iff_forall_not_mem.mpr
  intro e he
  exact hn (h.endpoints _ (h.mem_edgesFrom.mp he)).1

theorem dependents_eq_nil (h : Tracks g l) {n : String} (hn : n ∉ l.names) :
    g.dependents n = [] := by
  rw [h.dependents n, List.map_eq_nil_iff, List.filter_eq_nil_iff]
  intro p hp he
  obtain rfl : p.2.target = n := by simpa using he
  exact hn (h.endpoints p hp).2

theorem hasEdge_eq_false (h : Tracks g l) {s t : String} (hst : s ∉ l.names ∨ t ∉ l.names) :
    g.hasEdge s t = false := by
  rw [Bool.eq_false_iff]
  intro he
  obtain ⟨e, hm, rfl⟩ := h.hasEdge_iff.mp he
  obtain ⟨h1, h2⟩ := h.endpoints _ hm
  exact hst.elim (fun hs => hs h1) (fun ht => ht h2)

end Tracks

/-- Whatever was done to a graph, its two tables have the names mentioned since it was last
emptied as their keys, and every query reads the edges added since then, in their order. -/
theorem run_refines_log (ops : List Operation) :
    let g := run ops
    let names := (EdgeLog.run ops).names
    let edges := (EdgeLog.run ops).edges
    (∀ n, n ∈ g.outgoing ↔ n ∈ names) ∧
    (∀ n, n ∈ g.incoming ↔ n ∈ names) ∧
    (∀ n, g.edgesFrom n = (edges.filter fun p => p.1 == n).map Prod.snd) ∧
    (∀ n, g.dependents n = (edges.filter fun p => p.2.target == n).map Prod.fst) ∧
    g.log = edges.map Prod.fst ∧
    (∀ s t, g.hasEdge s t = true ↔ ∃ e, (s, e) ∈ edges ∧ e.target = t) ∧
    g.edgeCount = edges.length ∧
    (g.nodes.map fun n => (g.dependents n).length).sum = edges.length ∧
    (∀ n, n ∈ g.flaggedHeaders ↔ ∃ p ∈ edges, p.2.flagged = true ∧ p.2.target = n) ∧
    ∀ n, n ∉ names →
      g.hasNode n = false ∧ g.edgesFrom n = [] ∧ g.dependencies n = [] ∧ g.dependents n = [] ∧
        ∀ m, g.hasEdge n m = false ∧ g.hasEdge m n = false := by
  intro g names edges
  have h : Tracks g (EdgeLog.run ops) := tracks_run ops
  refine ⟨h.mem_outgoing, h.mem_incoming, h.edgesFrom, h.dependents, h.log,
    fun s t => h.hasEdge_iff, h.edgeCount_eq, h.sum_dependents,
    fun n => h.mem_flaggedHeaders, ?_⟩
  intro n hn
  have he := h.edgesFrom_eq_nil hn
  refine ⟨?_, he, by rw [dependencies, he]; rfl, h.dependents_eq_nil hn, ?_⟩
  · rw [hasNode, Bool.eq_false_iff]
    exact fun hc => hn ((h.mem_outgoing n).mp (Std.ExtTreeMap.contains_iff_mem.mp hc))
  · exact fun m => ⟨h.hasEdge_eq_false (.inl hn), h.hasEdge_eq_false (.inr hn)⟩

/-- A node that includes itself, an edge added twice, and a name from before the graph was
emptied. -/
def loopOperations : List Operation :=
  [.addNode "old.h", .clear, .addEdge "main.cpp" "all.h" .direct,
    .addEdge "all.h" "all.h" .direct, .addEdge "main.cpp" "all.h" .transitive]

theorem loop_dependents :
    (run loopOperations).dependents "all.h" = ["main.cpp", "all.h", "main.cpp"] ∧
      "old.h" ∉ (EdgeLog.run loopOperations).names ∧
      (run loopOperations).hasNode "old.h" = false := by
  obtain ⟨-, -, -, hdependents, -, -, -, -, -, hother⟩ := run_refines_log loopOperations
  have hold : "old.h" ∉ (EdgeLog.run loopOperations).names := by decide
  refine ⟨?_, hold, (hother "old.h" hold).1⟩
  rw [hdependents]
  rfl

end BuildAdvisor.Graph
