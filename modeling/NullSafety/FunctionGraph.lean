import NullSafety.Builder.Account
import NullSafety.Token.Reading

/-!
The graphs of the functions of a source. A function is a scope with a body of tokens; its graph is
built from the events read there.
-/

namespace NullSafety

/-- A part of the source with a name and a body. -/
structure Scope where
  kind : String := ""
  functionName : Option String := none
  className : Option String := none
  /-- The tokens that open and close the body. -/
  bodyStart : Option Nat := none
  bodyEnd : Option Nat := none

namespace Scope

def isFunction (s : Scope) : Bool := s.kind = "Function"

/-- The name of the function, or of the class if that is missing. -/
def name (s : Scope) : Option String :=
  match s.functionName with
  | some name => if name = "" then s.className else some name
  | none => s.className

/-- Everything in the body, and what went wrong after it, if anything. -/
def read (s : Scope) (ts : TokenList) (o : Options) : List Item × Option TokenFault :=
  match s.bodyStart, s.bodyEnd with
  | some opening, some closing =>
    let walked := Cut.body ts opening closing
    let fault :=
      match walked.result with
      | .error e => some e
      | .ok _ => none
    ts.readPieces o fault walked.pieces
  | _, _ => ([.issue ⟨.malformedInput, "scope has no body", none⟩], none)

end Scope

namespace Item

def event? : Item → Option Event
  | .event e => some e
  | .issue _ => none

def issue? : Item → Option Issue
  | .issue i => some i
  | .event _ => none

/-- The issues of a source read by a builder: its own and those of the items, as they come. -/
def buildIssues (b : Builder) : List Item → List Issue
  | [] => b.issues .finish
  | .event e :: rest => b.issues e ++ buildIssues (b.step e) rest
  | .issue i :: rest => i :: buildIssues b rest

end Item

/-- A graph, with the issues met while it was built. -/
structure FunctionGraph where
  graph : Graph
  issues : List Issue

namespace FunctionGraph

def ofScope (s : Scope) (ts : TokenList) (o : Options) : Except TokenFault FunctionGraph :=
  match s.read ts o with
  | (_, some e) => .error e
  | (items, none) =>
    let b : Builder := { graph := { name := s.name } }
    .ok ⟨((b.run (items.filterMap Item.event?)).step .finish).graph, Item.buildIssues b items⟩

/-- The key of a graph: its name, or else one made from the number of functions before it. -/
def key (f : FunctionGraph) (before : Nat) : String :=
  let numbered := "<function@" ++ toString before ++ ">"
  match f.graph.name with
  | none => numbered
  | some name => if name = "" then numbered else name

/-- Puts a graph under its key. A key that is taken keeps its place and gets the new graph. -/
def put (key : String) (f : FunctionGraph) :
    List (String × FunctionGraph) → List (String × FunctionGraph)
  | [] => [(key, f)]
  | (k, g) :: rest => if k = key then (k, f) :: rest else (k, g) :: put key f rest

/-- The graphs of all functions among the scopes. -/
def ofScopes (ts : TokenList) (o : Options) :
    List Scope → (done : List (String × FunctionGraph)) →
      Except TokenFault (List (String × FunctionGraph))
  | [], done => .ok done
  | s :: rest, done =>
    if s.isFunction then do
      let f ← ofScope s ts o
      ofScopes ts o rest (put (f.key done.length) f done)
    else ofScopes ts o rest done

end FunctionGraph

end NullSafety
