import BuildAdvisor.Graph.Basic

/-!
The flat form of an include graph.

* `Graph.Record` — a list of nodes and a list of edges with their sources;
* `Record.toGraph` — nodes and edges added one after another;
* `Graph.linked` — all edges with their sources in the order in which they came;
* `Graph.record` — the flat form of a graph.

A graph keeps its edges by source, and apart from them the sources in order.  Taking from each
source's edges in turn, as the order says, restores the order of the edges.
-/

set_option autoImplicit false

namespace BuildAdvisor.Graph

structure Record where
  nodes : List String
  edges : List (String × Edge)

def Record.toGraph (r : Record) : Graph :=
  let g := r.nodes.foldl addNode empty
  r.edges.foldl (fun g (source, e) => g.addEdge source e) g

/-- For each source in turn, the next of its edges that has not been taken; a source without
one gives none. -/
def replay (queues : Table (List Edge)) : List String → List (String × Edge)
  | [] => []
  | source :: rest =>
    match queues.getD source [] with
    | [] => replay queues rest
    | e :: later => (source, e) :: replay (queues.insert source later) rest

def linked (g : Graph) : List (String × Edge) :=
  replay (g.outgoing.map fun _ edges => edges.toList) g.log

def record (g : Graph) : Record :=
  ⟨g.nodes, g.linked⟩

/-- Equality by content, weights compared as numbers. -/
def sameAs (g h : Graph) : Bool :=
  g.outgoing.toList == h.outgoing.toList && g.incoming.toList == h.incoming.toList &&
    g.sources == h.sources

end BuildAdvisor.Graph
