import NullSafety.Builder.Basic
import NullSafety.Issue

/-!
What a builder has to say about the events it takes: the issues, one for each event that does not
nest, and the records of its steps. Both are read off the builder before the event.
-/

namespace NullSafety

namespace Builder

/-- The issues that an event gives rise to, each about an event that does not nest. -/
def issues (b : Builder) : Event → List Issue
  | .orElse =>
    match b.openElse? with
    | some _ => []
    | none => [⟨.structuralInconsistency, "'else' without a matching open 'if'", none⟩]
  | .exit =>
    match b.frames with
    | _ :: _ => []
    | [] => [⟨.structuralInconsistency, "end of 'if' without a matching open 'if'", none⟩]
  | .finish =>
    b.frames.map fun frame =>
      ⟨.structuralInconsistency, "'if' never closed; joining at end of input",
        some frame.condition.stmt.text⟩
  | _ => []

/-- The issues of a run of events, in the order in which they arise. -/
def runIssues (b : Builder) : List Event → List Issue
  | [] => []
  | event :: events => b.issues event ++ (b.step event).runIssues events

def appended (n : Node) : LogRecord := ⟨.debug, .builder, "added " ++ n.describe⟩

def joinRecord (frame : Frame) (join : Nat) : LogRecord :=
  ⟨.debug, .builder,
    "branch at N" ++ toString frame.condition.id ++ " joins at N" ++ toString join⟩

/-- What closing every open frame says: for each an issue, and where it joins. -/
def closeAllRecords (issues : List Issue) (frames : List Frame) (next : Nat) : List LogRecord :=
  match issues, frames with
  | issue :: issues, frame :: frames =>
    issue.logRecord :: joinRecord frame next :: closeAllRecords issues frames (next + 1)
  | _, _ => []

/-- What an event says. -/
def records (b : Builder) (event : Event) : List LogRecord :=
  let next := b.graph.size
  let issues := b.issues event
  let link := (b.step event).tail.toList.map appended
  match event with
  | .orElse =>
    match b.openElse? with
    | some (frame, _) =>
      [⟨.debug, .builder, "else branch of N" ++ toString frame.condition.id ++ " starts at N" ++
        toString next⟩]
    | none => issues.map Issue.logRecord ++ link
  | .exit =>
    match b.frames with
    | frame :: _ => [joinRecord frame next]
    | [] => issues.map Issue.logRecord ++ link
  | .finish => closeAllRecords issues b.frames next
  | _ => link

/-- What a run of events says. -/
def runRecords (b : Builder) : List Event → List LogRecord
  | [] => []
  | event :: events => b.records event ++ (b.step event).runRecords events

end Builder

end NullSafety
