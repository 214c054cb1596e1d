import NullSafety.Analysis
import NullSafety.Finding
import NullSafety.Options

/-!
From states to findings. Every dereference and every return is judged by the state before its
statement, node by node in breadth-first order.
-/

namespace NullSafety

namespace Check

/-- What is noticed at a node. -/
inductive Observation where
  | found (finding : Finding)
  | noticed (issue : Issue)
  /-- The check ends here without a result. -/
  | failed (failure : Failure)
  deriving DecidableEq, Repr

/-- The outcome of a check. The findings are never empty: a check that finds nothing holds
exactly `clean`. -/
structure Outcome where
  findings : List Finding
  issues : List Issue
  deriving DecidableEq, Repr

namespace Outcome

def hasFindings (r : Outcome) : Bool :=
  match r.findings with
  | [] => false
  | f :: _ => !f.isClean

def dereferences (r : Outcome) : List Finding := r.findings.filter Finding.isDereference

def returns (r : Outcome) : List Finding := r.findings.filter Finding.isReturn

end Outcome

def reportable (o : Options) (nullability : Nullability) : Bool :=
  nullability = .null || (nullability = .potentiallyNull && o.reportPossible)

/-- A finding at a node, where the line of the statement can be read. -/
def foundAt (n : Node) (finding : Place → Finding) : Observation :=
  match n.stmt.ref.lineNumber? with
  | some line => .found (finding ⟨n.stmt.text, n.id, n.stmt.ref.file, line⟩)
  | none => .failed (.unreadableLine n)

def untracked (n : Node) (what name : String) : Observation :=
  .noticed ⟨.unknownVariable, what ++ " of untracked name '" ++ name ++ "'", some n.stmt.text⟩

def observeDereference (o : Options) (n : Node) (state : State) (name : String) :
    Option Observation :=
  match state.get? name with
  | none => some (untracked n "dereference" name)
  | some v =>
    if v.isPointer && reportable o v.nullability then
      some (foundAt n (.dereference name v.nullability))
    else none

/-- Of a jump that returns a variable. -/
def observeReturn (o : Options) (n : Node) (state : State) : Option Observation :=
  match n.stmt.kind, n.stmt.name with
  | .jump, some name =>
    match state.get? name with
    | none => some (untracked n "return" name)
    | some v =>
      if o.reportReturns && v.isPointer && v.nullability = .null then
        some (foundAt n (.nullReturn name))
      else none
  | _, _ => none

/-- A name that a statement dereferences several times is judged once. -/
def observeIn (o : Options) (n : Node) (state : State) : List Observation :=
  n.stmt.dereferences.eraseDups.filterMap (observeDereference o n state) ++
    (observeReturn o n state).toList

def observeNode (o : Options) (a : Analysis) (n : Node) : List Observation :=
  match a.before? n with
  | none => [.failed (.unknownNode n)]
  | some state => observeIn o n state

def observe (o : Options) (a : Analysis) (nodes : List Node) : List Observation :=
  nodes.flatMap (observeNode o a)

def finding? : Observation → Option Finding
  | .found f => some f
  | _ => none

def issue? : Observation → Option Issue
  | .noticed i => some i
  | _ => none

def failure? : Observation → Option Failure
  | .failed e => some e
  | _ => none

/-- A check of the given nodes. `known` are the issues that are known already. -/
def outcome (o : Options) (a : Analysis) (nodes : List Node) (known : List Issue) :
    Except Failure Outcome :=
  let observations := observe o a nodes
  match observations.findSome? failure? with
  | some e => .error e
  | none =>
    let findings := observations.filterMap finding?
    .ok ⟨if findings.isEmpty then [.clean] else findings,
      known ++ a.issues ++ observations.filterMap issue?⟩

def observationRecord : Observation → Option LogRecord
  | .found f =>
    f.place?.map fun place =>
      ⟨.info, .check, f.id ++ " at N" ++ toString place.node ++ ": " ++ place.text⟩
  | .noticed issue => some issue.logRecord
  | .failed _ => none

/-- What a check says until it ends or fails. -/
def records (o : Options) (a : Analysis) (nodes : List Node) : List LogRecord :=
  ((observe o a nodes).takeWhile fun x => (failure? x).isNone).filterMap observationRecord

end Check

/-- Analyses a graph and checks it. `known` are the issues met when it was built. -/
def Graph.check (g : Graph) (o : Options) (known : List Issue) : Except Failure Check.Outcome :=
  Check.outcome o (Analysis.ofFlow g.flow) g.flow.breadthFirst known

/-- What analysing and checking a graph says. -/
def Graph.checkRecords (g : Graph) (o : Options) : List LogRecord :=
  let a := Analysis.ofFlow g.flow
  a.records g ++ Check.records o a g.flow.breadthFirst

end NullSafety
