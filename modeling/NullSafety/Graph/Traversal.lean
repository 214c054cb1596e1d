import NullSafety.Graph.Basic

/-!
Ways through a graph along its edges. Every loop counts down a number of steps that the edges
bound: a node other than the first is met along an edge, and is entered once.
-/

namespace NullSafety

namespace Traversal

/-- The nodes of a list that have not been seen, each once. -/
def unseen (seen : List Node) : List Node → List Node
  | [] => []
  | n :: ns => if n ∈ seen then unseen seen ns else n :: unseen (n :: seen) ns

/-- Takes the first node of the queue and puts its unseen successors at the end. -/
def breadthLoop (edges : List Edge) : Nat → (queue seen : List Node) → List Node
  | 0, _, _ => []
  | _ + 1, [], _ => []
  | steps + 1, n :: queue, seen =>
    let found := unseen seen (successors edges n)
    n :: breadthLoop edges steps (queue ++ found) (seen ++ found)

/-- The nodes reached from a node, nearest first; successors keep the order of their edges. -/
def breadthFirst (edges : List Edge) (start : Node) : List Node :=
  breadthLoop edges (edges.length + 1) [start] [start]

/-- The stack holds the nodes being visited, innermost first, each with the successors that are
still to be tried. A node is put in front of the order when none is left. -/
def postorderLoop (edges : List Edge) :
    Nat → (stack : List (Node × List Node)) → (seen order : List Node) → List Node
  | 0, _, _, order => order
  | _ + 1, [], _, order => order
  | steps + 1, (n, []) :: stack, seen, order => postorderLoop edges steps stack seen (n :: order)
  | steps + 1, (n, m :: rest) :: stack, seen, order =>
    if m ∈ seen then postorderLoop edges steps ((n, rest) :: stack) seen order
    else
      postorderLoop edges steps ((m, successors edges m) :: (n, rest) :: stack) (m :: seen) order

/-- The nodes reached from a node, last finished first in a depth-first visit. Without cycles,
every node comes after all its predecessors among them. -/
def reversePostorder (edges : List Edge) (start : Node) : List Node :=
  postorderLoop edges (2 * edges.length + 2) [(start, successors edges start)] [start] []

/-- Nodes wait in a pile; one that has been seen is passed over when it is taken. -/
def reachLoop (edges : List Edge) : Nat → (pile seen : List Node) → List Node
  | 0, _, seen => seen
  | _ + 1, [], seen => seen
  | steps + 1, n :: pile, seen =>
    if n ∈ seen then reachLoop edges steps pile seen
    else reachLoop edges steps ((successors edges n).reverse ++ pile) (n :: seen)

/-- The set of nodes reached from a node. -/
def reachable (edges : List Edge) (start : Node) : List Node :=
  reachLoop edges (edges.length + 2) [start] []

end Traversal

/-- A graph as control sees it: where it starts, and the edges that lead on. The edges may be
those of several graphs, where one has edges into another. -/
structure Flow where
  start? : Option Node
  edges : List Edge

namespace Flow

def breadthFirst (f : Flow) : List Node :=
  match f.start? with
  | none => []
  | some start => Traversal.breadthFirst f.edges start

def reversePostorder (f : Flow) : List Node :=
  match f.start? with
  | none => []
  | some start => Traversal.reversePostorder f.edges start

end Flow

def Graph.flow (g : Graph) : Flow := ⟨g.start?, g.edges⟩

end NullSafety
