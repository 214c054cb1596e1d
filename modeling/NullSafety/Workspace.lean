import NullSafety.Builder.Account
import NullSafety.Check
import NullSafety.Snapshot

/-!
Several graphs side by side, each perhaps with a builder, and analyses of them. An edge may lead
from one graph into another, so control follows the edges of all graphs, in the order in which
they were added; and builders may keep one list of issues together.
-/

namespace NullSafety

/-- A graph, and the number of the list its issues go to. -/
structure Workspace.Slot where
  graph : Graph
  log : Nat

/-- A builder, and the number of its graph. -/
structure Workspace.Site where
  builder : Builder
  graph : Nat

/-- An analysis of a graph, once it has run. -/
structure Workspace.Study where
  graph : Nat
  analysis : Option Analysis := none

structure Workspace where
  slots : Array Workspace.Slot := #[]
  sites : Array Workspace.Site := #[]
  studies : Array Workspace.Study := #[]
  /-- The lists of issues. -/
  logs : Array (List Issue) := #[]
  /-- The edges of all graphs, in the order in which they were added. -/
  edges : List Edge := []

namespace Workspace

def graph (w : Workspace) (g : Nat) : Graph :=
  match w.slots[g]? with
  | some slot => slot.graph
  | none => { home := g }

def node? (w : Workspace) (g id : Nat) : Option Node := (w.graph g).nodes[id]?

def flow (w : Workspace) (g : Nat) : Flow := ⟨(w.graph g).start?, w.edges⟩

/-- The issues in the list of a graph. -/
def issues (w : Workspace) (g : Nat) : List Issue :=
  match w.slots[g]? with
  | some slot => w.logs.getD slot.log []
  | none => []

/-- Replaces a graph by one that has grown from it; its new edges come last of all. -/
def grow (w : Workspace) (g : Nat) (grown : Graph) : Workspace :=
  { w with
    slots := w.slots.modify g fun slot => { slot with graph := grown }
    edges := w.edges ++ grown.edges.drop (w.graph g).edges.length }

/-- Adds an empty graph whose issues go to the list `log`. -/
def addGraphIn (w : Workspace) (name : Option String) (log : Nat) : Workspace :=
  { w with slots := w.slots.push ⟨{ home := w.slots.size, name }, log⟩ }

/-- Adds an empty graph with a list of issues of its own. -/
def addGraph (w : Workspace) (name : Option String) : Workspace :=
  let w' := { w with logs := w.logs.push [] }
  w'.addGraphIn name w.logs.size

/-- Adds a builder with an empty graph. It may share the list of issues of another builder. -/
def addBuilder (w : Workspace) (name : Option String) (share : Option Nat) : Workspace :=
  let shared :=
    (share.bind fun b => w.sites[b]?).bind fun site => w.slots[site.graph]?.map Slot.log
  let w' :=
    match shared with
    | some log => w.addGraphIn name log
    | none => w.addGraph name
  { w' with sites := w'.sites.push ⟨{}, w.slots.size⟩ }

/-- A builder, with its graph as it is now. -/
def builder (w : Workspace) (b : Nat) : Builder :=
  match w.sites[b]? with
  | some site => { site.builder with graph := w.graph site.graph }
  | none => {}

/-- The graph of a builder. -/
def graphOf (w : Workspace) (b : Nat) : Nat :=
  match w.sites[b]? with
  | some site => site.graph
  | none => w.slots.size

/-- Lets a builder take an event. -/
def step (w : Workspace) (b : Nat) (event : Event) : Workspace × List LogRecord :=
  let before := w.builder b
  let after := before.step event
  let g := w.graphOf b
  let w' := w.grow g after.graph
  let log := (w.slots[g]?.map Slot.log).getD w.logs.size
  ({ w' with
      sites := w'.sites.modify b fun site => { site with builder := after }
      logs := w'.logs.modify log fun issues => issues ++ before.issues event },
    before.records event)

def addNode (w : Workspace) (g : Nat) (stmt : Statement) : Workspace :=
  w.grow g ((w.graph g).addNode stmt)

def addEdge (w : Workspace) (g : Nat) (src dst : Node) (kind : Edge.Kind) : Workspace :=
  w.grow g ((w.graph g).addEdge src dst kind)

def addAnalysis (w : Workspace) (g : Nat) : Workspace :=
  { w with studies := w.studies.push ⟨g, none⟩ }

def study (w : Workspace) (a : Nat) : Study :=
  match w.studies[a]? with
  | some study => study
  | none => ⟨w.slots.size, none⟩

/-- The issues an analysis met; none before it has run. -/
def studyIssues (w : Workspace) (a : Nat) : List Issue :=
  match (w.study a).analysis with
  | some analysis => analysis.issues
  | none => []

def describeStudy (w : Workspace) (a : Nat) : String :=
  let study := w.study a
  let status := if study.analysis.isSome then "run" else "pending"
  "NullabilityAnalysis(" ++ (w.graph study.graph).describe ++ ", " ++ status ++ ")"

/-- Runs an analysis on its graph as it is now. -/
def run (w : Workspace) (a : Nat) : Workspace × List LogRecord :=
  let g := (w.study a).graph
  let analysis := Analysis.ofFlow (w.flow g)
  ({ w with studies := w.studies.modify a fun study => { study with analysis } },
    analysis.records (w.graph g))

/-- Runs an analysis unless it has run. -/
def ensureRun (w : Workspace) (a : Nat) : Workspace × List LogRecord :=
  if (w.study a).analysis.isSome then (w, []) else w.run a

/-- The analysis, if it has run. -/
def analysis (w : Workspace) (a : Nat) : Except Failure Analysis :=
  match (w.study a).analysis with
  | some analysis => .ok analysis
  | none => .error .notRun

def before (w : Workspace) (a : Nat) (n : Node) : Except Failure State := do
  match (← w.analysis a).before? n with
  | some state => .ok state
  | none => .error (.unknownNode n)

def after (w : Workspace) (a : Nat) (n : Node) : Except Failure State := do
  match (← w.analysis a).after? n with
  | some state => .ok state
  | none => .error (.unknownNode n)

/-- Checks a graph by an analysis, which runs if it has not. -/
def check (w : Workspace) (a g : Nat) (o : Options) :
    Workspace × List LogRecord × Except Failure Check.Outcome :=
  let (w', ran) := w.ensureRun a
  let nodes := (w'.flow g).breadthFirst
  match w'.analysis a with
  | .error e => (w', ran, .error e)
  | .ok analysis =>
    (w', ran ++ Check.records o analysis nodes, Check.outcome o analysis nodes (w'.issues g))

/-- Shows the nodes of a graph by an analysis, which runs if it has not. -/
def snapshots (w : Workspace) (a g : Nat) :
    Workspace × List LogRecord × Except Failure (List Snapshot) :=
  let (w', ran) := w.ensureRun a
  (w', ran, do Snapshot.ofNodes (← w'.analysis a) (w'.flow g).breadthFirst)

/-- The states of all nodes of a graph, before and after, in breadth-first order. -/
def states (w : Workspace) (a g : Nat) : Except Failure (List (Node × State × State)) := do
  (← w.analysis a).statesOf (w.flow g).breadthFirst

end Workspace

end NullSafety
