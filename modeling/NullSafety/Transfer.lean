import NullSafety.Issue
import NullSafety.State
import NullSafety.Statement

/-!
The effect of one statement on what is known. Only declarations and assignments have one. The
issue a statement gives rise to and the records of the step are functions of their own.
-/

namespace NullSafety

namespace Statement

/-- The entry a statement gives its variable, if it changes it at all. An assignment to a name
that is not tracked makes it known, but not as a pointer; one to a variable that is no pointer
changes nothing. -/
def update? (stmt : Statement) (state : State) : Option Variable :=
  match stmt.kind, stmt.name with
  | .declaration, some name =>
    some (if stmt.isPointer then ⟨name, true, .ofStored stmt.isNull⟩ else ⟨name, false, .assigned⟩)
  | .assignment, some name =>
    match state.get? name with
    | none => some ⟨name, false, .assigned⟩
    | some v => if v.isPointer then some { v with nullability := .ofStored stmt.isNull } else none
  | _, _ => none

/-- The state after a statement, given the state before it. -/
def transfer (stmt : Statement) (state : State) : State :=
  match stmt.update? state with
  | some v => state.insert v
  | none => state

/-- A declaration or assignment without a variable is skipped, and that is an issue. -/
def transferIssue? (stmt : Statement) : Option Issue :=
  if stmt.updatesState && stmt.name.isNone then
    some ⟨.malformedInput, "cannot resolve the variable of this " ++ stmt.kind.word,
      some stmt.text⟩
  else none

/-- What a step of the analysis says: its issue, each declaration, and each change of a tracked
pointer. -/
def transferRecords (stmt : Statement) (state : State) : List LogRecord :=
  match stmt.transferIssue? with
  | some issue => [issue.logRecord]
  | none =>
    match stmt.update? state with
    | none => []
    | some new =>
      if stmt.kind = .declaration then [⟨.debug, .transfer, "declare " ++ new.describe⟩]
      else
        match state.get? new.name with
        | none => []
        | some old =>
          [⟨.debug, .transfer, "assign " ++ old.describe ++ " -> " ++ new.describe⟩]

end Statement

end NullSafety
