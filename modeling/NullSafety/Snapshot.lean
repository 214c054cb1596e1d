import NullSafety.Analysis

/-!
The states an analysis found, as text: for every node the variable it names, as it is after the
node.
-/

namespace NullSafety

/-- A node, with the variable it names. -/
structure Snapshot where
  node : Nat
  text : String
  name : Option String := none
  isPointer : Bool := false
  /-- Of a pointer only. -/
  nullability : Option Nullability := none
  deriving DecidableEq, Repr

namespace Snapshot

def describe (s : Snapshot) : String :=
  let head := "Node: " ++ s.text
  match s.name with
  | none => head ++ " - No variable"
  | some name =>
    let state :=
      match s.isPointer, s.nullability with
      | true, some nullability => nullability.name
      | _, _ => "Not a pointer"
    head ++ " - Variable: " ++ name ++ " - State: " ++ state

/-- A variable is shown only if the state tracks it. -/
def ofState (n : Node) (state : State) : Snapshot :=
  match n.stmt.name with
  | none => { node := n.id, text := n.stmt.text }
  | some name =>
    match state.get? name with
    | none => { node := n.id, text := n.stmt.text }
    | some v =>
      { node := n.id, text := n.stmt.text, name, isPointer := v.isPointer,
        nullability := if v.isPointer then some v.nullability else none }

/-- A node that names no variable needs no state. -/
def ofNode (a : Analysis) (n : Node) : Except Failure Snapshot :=
  match n.stmt.name, a.after? n with
  | none, _ => .ok (ofState n State.empty)
  | some _, some state => .ok (ofState n state)
  | some _, none => .error (.unknownNode n)

def ofNodes (a : Analysis) (nodes : List Node) : Except Failure (List Snapshot) :=
  nodes.mapM (ofNode a)

/-- One line for each. -/
def render (snapshots : List Snapshot) : String := "\n".intercalate (snapshots.map describe)

end Snapshot

end NullSafety
