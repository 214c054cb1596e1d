import NullSafety.Graph.Traversal

/-!
The text of a graph: each node with its successors, in depth-first order.
-/

namespace NullSafety

namespace Listing

inductive Line where
  | node (n : Node)
  | successor (n : Node)
  deriving DecidableEq, Repr

def Line.text : Line → String
  | .node n => "Node: " ++ n.stmt.text
  | .successor n => "  Successor: " ++ n.stmt.text

/-- The stack holds, for each node being listed, the successors still to be listed, innermost
first. A successor that has not been listed itself is entered at once. -/
def loop (edges : List Edge) : Nat → (stack : List (List Node)) → (seen : List Node) → List Line
  | 0, _, _ => []
  | _ + 1, [], _ => []
  | steps + 1, [] :: stack, seen => loop edges steps stack seen
  | steps + 1, (m :: rest) :: stack, seen =>
    .successor m ::
      if m ∈ seen then loop edges steps (rest :: stack) seen
      else .node m :: loop edges steps (successors edges m :: rest :: stack) (m :: seen)

def linesFrom (edges : List Edge) (start : Node) : List Line :=
  .node start :: loop edges (2 * edges.length + 2) [successors edges start] [start]

end Listing

namespace Flow

def listingLines (f : Flow) : List Listing.Line :=
  match f.start? with
  | none => []
  | some start => Listing.linesFrom f.edges start

def listing (f : Flow) : String := "\n".intercalate (f.listingLines.map Listing.Line.text)

end Flow

end NullSafety
