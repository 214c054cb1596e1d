import NullSafety.Statement
import NullSafety.Text.Quoted

/-!
Control-flow graphs with one statement per node. A graph only ever grows. Successors and
predecessors are not stored: they are read off the list of edges, in the order in which the edges
were added, so there is nothing for the edges to disagree with.
-/

namespace NullSafety

inductive Edge.Kind where
  | fallThrough
  | branchTrue
  | branchFalse
  deriving DecidableEq, Repr

def Edge.Kind.word : Edge.Kind → String
  | .fallThrough => "fall-through"
  | .branchTrue => "branch-true"
  | .branchFalse => "branch-false"

/-- A node knows the graph it belongs to, so that equal statements at equal positions of two
graphs are still two nodes. -/
structure Node where
  home : Nat
  id : Nat
  stmt : Statement
  deriving DecidableEq, Repr

namespace Node

def label (n : Node) : String := "N" ++ toString n.id ++ ": " ++ n.stmt.text

def describe (n : Node) : String :=
  "CFGNode(id=" ++ toString n.id ++ ", kind=" ++ Text.quoted n.stmt.kind.word ++
    ", code=" ++ Text.quoted n.stmt.text ++ ")"

end Node

structure Edge where
  src : Node
  dst : Node
  kind : Edge.Kind := .fallThrough
  deriving DecidableEq, Repr

namespace Edge

def describe (e : Edge) : String :=
  "CFGEdge(N" ++ toString e.src.id ++ " -> N" ++ toString e.dst.id ++ ", kind=" ++
    Text.quoted e.kind.word ++ ")"

/-- Whether the edge runs between nodes with these ids, in whatever graphs they are. -/
def joins (e : Edge) (src dst : Node) : Bool := e.src.id = src.id && e.dst.id = dst.id

end Edge

/-- The nodes to which control may pass from a node. -/
def successors (edges : List Edge) (n : Node) : List Node :=
  (edges.filter fun e => e.src = n).map Edge.dst

/-- The nodes from which control may arrive at a node. -/
def predecessors (edges : List Edge) (n : Node) : List Node :=
  (edges.filter fun e => e.dst = n).map Edge.src

theorem mem_successors {edges : List Edge} {u v : Node} :
    v ∈ successors edges u ↔ ∃ e ∈ edges, e.src = u ∧ e.dst = v := by
  simp [successors, and_assoc]

theorem mem_predecessors {edges : List Edge} {u v : Node} :
    u ∈ predecessors edges v ↔ ∃ e ∈ edges, e.dst = v ∧ e.src = u := by
  simp [predecessors, and_assoc]

theorem successors_append (es fs : List Edge) (n : Node) :
    successors (es ++ fs) n = successors es n ++ successors fs n := by
  simp [successors]

theorem predecessors_append (es fs : List Edge) (n : Node) :
    predecessors (es ++ fs) n = predecessors es n ++ predecessors fs n := by
  simp [predecessors]

structure Graph where
  /-- Tells the graph from others. -/
  home : Nat := 0
  name : Option String := none
  /-- In order of creation. -/
  nodes : List Node := []
  /-- In order of insertion. -/
  edges : List Edge := []
  deriving DecidableEq, Repr

namespace Graph

def size (g : Graph) : Nat := g.nodes.length

/-- The first node added. -/
def start? (g : Graph) : Option Node := g.nodes.head?

/-- The node the graph creates next for a statement. -/
def fresh (g : Graph) (stmt : Statement) : Node := ⟨g.home, g.size, stmt⟩

def addNode (g : Graph) (stmt : Statement) : Graph :=
  { g with nodes := g.nodes ++ [g.fresh stmt] }

/-- The edge between two nodes. Edges are told apart by the ids of their ends alone. -/
def edge? (g : Graph) (src dst : Node) : Option Edge := g.edges.find? fun e => e.joins src dst

/-- Adds an edge, unless there is one between these nodes already: then that one stays. -/
def addEdge (g : Graph) (src dst : Node) (kind : Edge.Kind) : Graph :=
  match g.edge? src dst with
  | some _ => g
  | none => { g with edges := g.edges ++ [⟨src, dst, kind⟩] }

theorem nodes_addNode (g : Graph) (stmt : Statement) :
    (g.addNode stmt).nodes = g.nodes ++ [g.fresh stmt] := rfl

theorem edges_addNode (g : Graph) (stmt : Statement) : (g.addNode stmt).edges = g.edges := rfl

theorem nodes_addEdge (g : Graph) (src dst : Node) (kind : Edge.Kind) :
    (g.addEdge src dst kind).nodes = g.nodes := by
  unfold addEdge
  split <;> rfl

theorem edges_addEdge (g : Graph) (src dst : Node) (kind : Edge.Kind) :
    (g.addEdge src dst kind).edges =
      if (g.edge? src dst).isSome then g.edges else g.edges ++ [⟨src, dst, kind⟩] := by
  unfold addEdge
  split <;> rename_i h <;> simp [h]

/-- Whether the node is one of the graph's own. -/
def owns (g : Graph) (n : Node) : Bool := g.nodes[n.id]? = some n

def describe (g : Graph) : String :=
  let name :=
    match g.name with
    | none => "<anonymous>"
    | some name => if name = "" then "<anonymous>" else name
  "CFG(name=" ++ Text.quoted name ++ ", nodes=" ++ toString g.size ++ ", edges=" ++
    toString g.edges.length ++ ")"

end Graph

end NullSafety
