import BuildAdvisor.Table

/-!
The include graph: a multigraph over file paths.

* `Edge`, `EdgeKind` — one include;
* `Graph` — the edges of each node, the sources that point at each node, and the order in which
  edges came;
* `Graph.addNode`, `Graph.addEdge` — the two ways in which a graph grows;
* `Graph.edgesFrom`, `Graph.dependents`, `Graph.log` — the three views.

Repeated edges are kept, because their number is how often a header is included.  A query about
an unknown node is answered as for a node without edges.
-/

set_option autoImplicit false

namespace BuildAdvisor

inductive EdgeKind where
  | direct
  | transitive
  | precompiled
deriving DecidableEq, Repr

/-- An edge without its source.  `flagged` marks a target that the trace calls a system header. -/
structure Edge where
  target : String
  kind : EdgeKind
  line : UInt32
  flagged : Bool
  weight : Float
deriving BEq

/-- An edge of which only the target and the kind are known. -/
def Edge.plain (target : String) (kind : EdgeKind) : Edge :=
  ⟨target, kind, 0, false, 1.0⟩

structure Graph where
  outgoing : Table (Array Edge)
  incoming : Table (Array String)
  sources : Array String

namespace Graph

def empty : Graph := ⟨∅, ∅, #[]⟩

instance : Inhabited Graph := ⟨empty⟩

/-! ## Growth -/

/-- A node that is there already stays as it is. -/
def addNode (g : Graph) (node : String) : Graph where
  outgoing := g.outgoing.insertIfNew node #[]
  incoming := g.incoming.insertIfNew node #[]
  sources := g.sources

/-- Appends to the entry of a name, which need not exist. -/
def append {β : Type} (t : Table (Array β)) (name : String) (x : β) : Table (Array β) :=
  t.alter name fun entry => some ((entry.getD #[]).push x)

/-- Missing endpoints become nodes. -/
def addEdge (g : Graph) (source : String) (e : Edge) : Graph :=
  let g := (g.addNode source).addNode e.target
  { outgoing := append g.outgoing source e
    incoming := append g.incoming e.target source
    sources := g.sources.push source }

/-! ## Views -/

def edgesFrom (g : Graph) (node : String) : List Edge :=
  (g.outgoing.getD node #[]).toList

/-- The sources of the edges into a node, one for each edge, in the order of the edges. -/
def dependents (g : Graph) (node : String) : List String :=
  (g.incoming.getD node #[]).toList

/-- The sources of all edges in the order in which the edges came. -/
def log (g : Graph) : List String :=
  g.sources.toList

def dependencies (g : Graph) (node : String) : List String :=
  (g.edgesFrom node).map Edge.target

def nodes (g : Graph) : List String :=
  g.outgoing.keys

def hasNode (g : Graph) (node : String) : Bool :=
  g.outgoing.contains node

def hasEdge (g : Graph) (source target : String) : Bool :=
  (g.edgesFrom source).any fun e => e.target == target

def nodeCount (g : Graph) : Nat :=
  g.outgoing.size

/-- All edges, source by source. -/
def edges (g : Graph) : List Edge :=
  g.outgoing.values.flatMap Array.toList

def edgeCount (g : Graph) : Nat :=
  g.outgoing.values.foldl (fun count edges => count + edges.size) 0

def isEmpty (g : Graph) : Bool :=
  g.outgoing.isEmpty

/-- The targets that some edge flags. -/
def flaggedHeaders (g : Graph) : Names :=
  Names.ofList ((g.edges.filter Edge.flagged).map Edge.target)

end Graph

end BuildAdvisor
