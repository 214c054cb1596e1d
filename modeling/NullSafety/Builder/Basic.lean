import NullSafety.Event
import NullSafety.Graph.Basic

/-!
Graphs from statements in the order of the source. An `if` opens a frame; its branches come
together in a join when the frame is closed.

```text
if(c) ──true──► body ────────────────────┐
  │                                      ▼
  └──false──► else ──► other body ──► join
```

Without an else branch the false edge goes from the condition to the join. An else or an end that
belongs to no open frame is linked like a plain statement.
-/

namespace NullSafety

/-- An `if` that is open. -/
structure Frame where
  condition : Node
  /-- The last node of the first branch, once the else branch has begun. -/
  bodyExit : Option Node := none
  deriving DecidableEq, Repr

structure Builder where
  graph : Graph := {}
  /-- The node appended last. -/
  tail : Option Node := none
  /-- The kind of the edge to the node appended next. -/
  pending : Edge.Kind := .fallThrough
  /-- The open frames, innermost first. -/
  frames : List Frame := []
  deriving DecidableEq, Repr

namespace Builder

def depth (b : Builder) : Nat := b.frames.length

/-- Adds a node, with an edge from the node appended last. -/
def append (b : Builder) (stmt : Statement) : Builder :=
  let node := b.graph.fresh stmt
  let grown := b.graph.addNode stmt
  { b with
    graph :=
      match b.tail with
      | none => grown
      | some tail => grown.addEdge tail node b.pending
    tail := some node
    pending := .fallThrough }

/-- Appends the condition and opens a frame for it. -/
def enter (b : Builder) (stmt : Statement) : Builder :=
  let condition := b.graph.fresh stmt
  { b.append stmt with
    pending := .branchTrue
    frames := ⟨condition, none⟩ :: b.frames }

/-- Starts the else branch of a frame from its condition. -/
def beginElse (b : Builder) (frame : Frame) (rest : List Frame) : Builder :=
  let marker := b.graph.fresh (.marker .orElse)
  { graph := (b.graph.addNode (.marker .orElse)).addEdge frame.condition marker .branchFalse
    tail := some marker
    pending := .fallThrough
    frames := { frame with bodyExit := some (b.tail.getD frame.condition) } :: rest }

/-- The ends of the two branches of a frame that is closed after `tail`, with the kinds of the
edges from them. The body is empty when the first branch still ends at the condition. -/
def branchExits (frame : Frame) (tail : Node) : List (Node × Edge.Kind) :=
  let bodyExit := frame.bodyExit.getD tail
  let bodyKind := if bodyExit = frame.condition then Edge.Kind.branchTrue else .fallThrough
  match frame.bodyExit with
  | none => [(bodyExit, bodyKind), (frame.condition, .branchFalse)]
  | some _ => [(bodyExit, bodyKind), (tail, .fallThrough)]

/-- Joins the branches of the innermost frame, the first branch first. -/
def close (b : Builder) (frame : Frame) (rest : List Frame) : Builder :=
  let join := b.graph.fresh (.marker .join)
  let exits := branchExits frame (b.tail.getD frame.condition)
  { graph :=
      exits.foldl (fun g exit => g.addEdge exit.1 join exit.2) (b.graph.addNode (.marker .join))
    tail := some join
    pending := .fallThrough
    frames := rest }

/-- Closes every open frame, innermost first. -/
def closeAll (b : Builder) : List Frame → Builder
  | [] => b
  | frame :: rest => (b.close frame rest).closeAll rest

/-- An else belongs to the innermost frame, unless that frame has one. -/
def openElse? (b : Builder) : Option (Frame × List Frame) :=
  match b.frames with
  | [] => none
  | frame :: rest => if frame.bodyExit.isNone then some (frame, rest) else none

/-- The builder after an event. -/
def step (b : Builder) (event : Event) : Builder :=
  match event with
  | .enter condition dereferences ref => b.enter (.condition condition dereferences ref)
  | .orElse =>
    match b.openElse? with
    | some (frame, rest) => b.beginElse frame rest
    | none => b.append (.marker .orElse)
  | .exit =>
    match b.frames with
    | frame :: rest => b.close frame rest
    | [] => b.append (.marker .join)
  | .finish => b.closeAll b.frames
  | event =>
    match event.plain? with
    | some stmt => b.append stmt
    | none => b

def run (b : Builder) (events : List Event) : Builder := events.foldl step b

end Builder

end NullSafety
