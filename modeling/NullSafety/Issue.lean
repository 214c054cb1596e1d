import NullSafety.Log

/-!
Problems with the input. None of them stops an analysis: each is recorded, in the order in which
it was met, and the statement it concerns is treated as well as can be.
-/

namespace NullSafety

inductive Issue.Kind where
  /-- A statement that cannot be made sense of. -/
  | malformedInput
  /-- A name that no earlier statement declares or assigns. -/
  | unknownVariable
  /-- Branches that do not nest. -/
  | structuralInconsistency
  deriving DecidableEq, Repr

namespace Issue.Kind

def name : Kind → String
  | .malformedInput => "MALFORMED_INPUT"
  | .unknownVariable => "UNKNOWN_VARIABLE"
  | .structuralInconsistency => "STRUCTURAL_INCONSISTENCY"

def code : Kind → String
  | .malformedInput => "NF-1001"
  | .unknownVariable => "NF-1002"
  | .structuralInconsistency => "NF-1003"

def level : Kind → Level
  | .malformedInput => .debug
  | .unknownVariable => .debug
  | .structuralInconsistency => .warning

end Issue.Kind

structure Issue where
  kind : Issue.Kind
  message : String
  /-- The text of the statement concerned. -/
  statement : Option String := none
  deriving DecidableEq, Repr

namespace Issue

/-- Code, message and, when there is a statement with some text, that text. -/
def text (issue : Issue) : String :=
  let place :=
    match issue.statement with
    | none => ""
    | some s => if s = "" then "" else " at '" ++ s ++ "'"
  issue.kind.code ++ ": " ++ issue.message ++ place

/-- What recording an issue says. -/
def logRecord (issue : Issue) : LogRecord := ⟨issue.kind.level, .issues, issue.text⟩

def ofKind (kind : Kind) (issues : List Issue) : List Issue :=
  issues.filter fun issue => issue.kind = kind

/-- Adds one to the count of a kind; a kind seen for the first time goes last. -/
def countKind (kind : Kind) : List (Kind × Nat) → List (Kind × Nat)
  | [] => [(kind, 1)]
  | (k, n) :: rest => if k = kind then (k, n + 1) :: rest else (k, n) :: countKind kind rest

/-- How many issues there are of each kind, in the order in which the kinds first occur. -/
def counts (issues : List Issue) : List (Kind × Nat) :=
  issues.foldl (fun table issue => countKind issue.kind table) []

/-- A list of issues, described by its size. -/
def describe (issues : List Issue) : String :=
  "IssueLog(" ++ toString issues.length ++ " issues)"

end Issue

end NullSafety
