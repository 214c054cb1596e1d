import NullSafety.Graph.Basic

/-!
A graph as a DOT file, one statement per line. Node texts are escaped; the title is written as
it is.
-/

namespace NullSafety

namespace Dot

/-- Inside a quoted label a backslash, a quote and a line break are written with a backslash. -/
def escapeChar (c : Char) : List Char :=
  if c = '\\' then ['\\', '\\']
  else if c = '"' then ['\\', '"']
  else if c = '\n' then ['\\', 'n']
  else [c]

def escape (s : String) : String := String.ofList (s.toList.flatMap escapeChar)

/-- How nodes of a kind are drawn. -/
def nodeStyle : Statement.Kind → String
  | .conditionEntry => ", shape=diamond"
  | .branchMarker => ", style=filled, fillcolor=\"#e0e0e0\""
  | _ => ""

def edgeStyle : Edge.Kind → String
  | .fallThrough => ""
  | .branchTrue => ", color=green, fontcolor=green"
  | .branchFalse => ", color=red, fontcolor=red"

def nodeLine (n : Node) : String :=
  let name := "N" ++ toString n.id
  "  " ++ name ++ " [label=\"" ++ name ++ "\\n" ++ escape n.stmt.text ++ "\"" ++
    nodeStyle n.stmt.kind ++ "];"

def edgeLine (e : Edge) : String :=
  "  N" ++ toString e.src.id ++ " -> N" ++ toString e.dst.id ++ " [label=\"" ++ e.kind.word ++
    "\"" ++ edgeStyle e.kind ++ "];"

/-- The line with the title, when there is one. -/
def titleLines (title : String) : List String :=
  if title = "" then [] else ["  label=\"" ++ title ++ "\";"]

end Dot

namespace Graph

/-- The title shown: the one given, or else the name of the graph. -/
def effectiveTitle (g : Graph) (title : Option String) : String := (title <|> g.name).getD ""

def dotLines (g : Graph) (title : Option String) : List String :=
  "digraph CFG \x7b" :: Dot.titleLines (g.effectiveTitle title) ++
    "  node [shape=box, fontname=monospace, fontsize=10];" ::
    g.nodes.map Dot.nodeLine ++ g.edges.map Dot.edgeLine ++ ["\x7d"]

def dot (g : Graph) (title : Option String) : String :=
  "\n".intercalate (g.dotLines title)

end Graph

end NullSafety
