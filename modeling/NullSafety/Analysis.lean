import NullSafety.Graph.Traversal
import NullSafety.Transfer

/-!
Nullability along the flow of control. One pass in reverse postorder gives every node a state
before and a state after it: before it, what its predecessors leave, merged in the order of their
edges; after it, what its statement makes of that. A predecessor that has not been visited yet
contributes nothing, which without cycles does not happen to one that control can reach.
-/

namespace NullSafety

/-- What the pass found at one node. -/
structure Visit where
  node : Node
  /-- The states that meet in front of the node. -/
  incoming : List State
  before : State
  after : State
  deriving DecidableEq

/-- Why a question about an analysis has no answer. -/
inductive Failure where
  | notRun
  | unknownNode (n : Node)
  /-- A finding is due at a statement whose line number cannot be read. -/
  | unreadableLine (n : Node)
  deriving DecidableEq, Repr

def Failure.message : Failure → String
  | .notRun => "NullabilityAnalysis.run() has not been called"
  | .unknownNode n => Text.quoted ("node " ++ n.describe ++ " is not part of the analysed CFG")
  | .unreadableLine n => "the line number of " ++ n.describe ++ " cannot be read"

/-- The visits of a pass, in its order. -/
structure Analysis where
  visits : List Visit
  deriving DecidableEq

namespace Analysis

def visitOf? (visits : List Visit) (n : Node) : Option Visit :=
  visits.find? fun v => v.node = n

/-- Visits a node, given the visits so far. -/
def visit (edges : List Edge) (done : List Visit) (n : Node) : Visit :=
  let incoming := (predecessors edges n).filterMap fun p => (visitOf? done p).map Visit.after
  let before := State.mergeAll incoming
  ⟨n, incoming, before, n.stmt.transfer before⟩

/-- Visits nodes in the order given. -/
def pass (edges : List Edge) (order : List Node) : List Visit :=
  order.foldl (fun done n => done ++ [visit edges done n]) []

/-- The pass over what control can reach. -/
def ofFlow (flow : Flow) : Analysis := ⟨pass flow.edges flow.reversePostorder⟩

def before? (a : Analysis) (n : Node) : Option State := (visitOf? a.visits n).map Visit.before

def after? (a : Analysis) (n : Node) : Option State := (visitOf? a.visits n).map Visit.after

/-- The states before and after each of the nodes. -/
def statesOf (a : Analysis) (nodes : List Node) :
    Except Failure (List (Node × State × State)) :=
  nodes.mapM fun n =>
    match visitOf? a.visits n with
    | some v => .ok (n, v.before, v.after)
    | none => .error (.unknownNode n)

/-- The state after the node visited last. -/
def final (a : Analysis) : State :=
  match a.visits.getLast? with
  | none => State.empty
  | some v => v.after

/-- The statements that had to be skipped. -/
def issues (a : Analysis) : List Issue := a.visits.filterMap fun v => v.node.stmt.transferIssue?

/-- What a visit says: the state where several ways meet, and the step of its statement. -/
def visitRecords (v : Visit) : List LogRecord :=
  let meeting : List LogRecord :=
    if v.incoming.length > 1 then
      [⟨.debug, .analysis, "join at N" ++ toString v.node.id ++ ": " ++ v.before.describe⟩]
    else []
  meeting ++ v.node.stmt.transferRecords v.before

/-- What the pass over a graph says. -/
def records (a : Analysis) (g : Graph) : List LogRecord :=
  a.visits.flatMap visitRecords ++
    [⟨.debug, .analysis, "analysed " ++ toString a.visits.length ++ " nodes of " ++ g.describe ++
      ", " ++ toString a.issues.length ++ " issues"⟩]

end Analysis

end NullSafety
