import Mathlib.Data.List.Basic
import NullSafety.Graph.Dot

/-!
# Reading a graph back from its DOT file

A reader of DOT files with one statement on each line. It knows how the format is written, and
nothing of how these files come about: a quoted string runs to the first quote without a backslash
before it, and in it a backslash and the character behind it stand for one character. What it reads
from the file of a graph is every node with its whole text and every edge, whatever the texts are:
none ends its label early, and none is taken for a statement.
-/

namespace NullSafety

namespace Dot

/-! ## Tokens -/

inductive Token where
  | word (w : List Char)
  /-- A quoted string, as it reads. -/
  | text (t : List Char)
  | sign (c : Char)
  /-- A quoted string that does not end on its line, or that cannot be read. -/
  | broken

/-- Where the reader stands on a line, with what it has read of a word or a quoted string. -/
inductive Mode where
  | between
  | inWord (w : List Char)
  | inText (t : List Char)
  /-- Behind a backslash in a quoted string. -/
  | escaped (t : List Char)

def isWordChar (c : Char) : Bool := c.isAlphanum || c == '_'

/-- The character that a backslash and this one stand for. -/
def unescapeChar? (c : Char) : Option Char :=
  if c = '\\' ∨ c = '"' then some c else if c = 'n' then some '\n' else none

/-- What a character says outside words and quoted strings, and where the reader stands then. -/
def outside (c : Char) : List Token × Mode :=
  if c = '"' then ([], .inText [])
  else if c = ' ' then ([], .between)
  else if isWordChar c then ([], .inWord [c])
  else ([.sign c], .between)

def scan : Mode → List Char → List Token
  | .between, [] => []
  | .inWord w, [] => [.word w]
  | .inText _, [] => [.broken]
  | .escaped _, [] => [.broken]
  | .between, c :: cs => (outside c).1 ++ scan (outside c).2 cs
  | .inWord w, c :: cs =>
    if isWordChar c then scan (.inWord (w ++ [c])) cs
    else .word w :: ((outside c).1 ++ scan (outside c).2 cs)
  | .inText t, c :: cs =>
    if c = '\\' then scan (.escaped t) cs
    else if c = '"' then .text t :: scan .between cs
    else scan (.inText (t ++ [c])) cs
  | .escaped t, c :: cs =>
    match unescapeChar? c with
    | some d => scan (.inText (t ++ [d])) cs
    | none => [.broken]

/-! ## Statements -/

/-- A statement of the format, with its attributes in order. -/
inductive Sentence where
  | opening (name : List Char)
  | closing
  | node (name : List Char) (attributes : List (List Char × List Char))
  | edge (src dst : List Char) (attributes : List (List Char × List Char))

def Token.value? : Token → Option (List Char)
  | .word w => some w
  | .text t => some t
  | _ => none

/-- The attributes behind an opening bracket, up to the end of the statement. -/
def attributes? : List Token → Option (List (List Char × List Char))
  | [.word key, .sign '=', value, .sign ']', .sign ';'] => do
      return [(key, ← value.value?)]
  | .word key :: .sign '=' :: value :: .sign ',' :: rest => do
      return (key, ← value.value?) :: (← attributes? rest)
  | _ => none

def sentence? : List Token → Option Sentence
  | [.word w, .word name, .sign '\x7b'] =>
      if w = "digraph".toList then some (.opening name) else none
  | [.sign '\x7d'] => some .closing
  | .word name :: .sign '[' :: rest => (attributes? rest).map (.node name)
  | .word src :: .sign '-' :: .sign '>' :: .word dst :: .sign '[' :: rest =>
      (attributes? rest).map (.edge src dst)
  | _ => none

/-! ## Pictures -/

inductive Display where
  | condition
  | marker
  | other
  deriving DecidableEq

structure Box where
  id : Nat
  text : String
  display : Display
  deriving DecidableEq

structure Arrow where
  src : Nat
  dst : Nat
  kind : Edge.Kind
  deriving DecidableEq

/-- The nodes and the edges that a file draws, each in the order of their lines. -/
structure Picture where
  boxes : List Box := []
  arrows : List Arrow := []
  deriving DecidableEq

/-- The number in the name of a node. -/
def id? : List Char → Option Nat
  | 'N' :: digits =>
      if digits ≠ [] ∧ digits.all Char.isDigit then some (Nat.ofDigitChars 10 digits 0) else none
  | _ => none

def kind? (w : List Char) : Option Edge.Kind :=
  [.fallThrough, .branchTrue, .branchFalse].find? fun kind : Edge.Kind => kind.word.toList = w

def display (attributes : List (List Char × List Char)) : Display :=
  if attributes.lookup "shape".toList = some "diamond".toList then .condition
  else if attributes.lookup "style".toList = some "filled".toList then .marker
  else .other

/-- The label of a node is its name and, on lines of their own, its text. -/
def box? (name : List Char) (attributes : List (List Char × List Char)) : Option Box :=
  (attributes.lookup "label".toList).bind fun label =>
    if name ++ ['\n'] <+: label then
      (id? name).map fun id =>
        ⟨id, String.ofList (label.drop (name.length + 1)), display attributes⟩
    else none

def arrow? (src dst : List Char) (attributes : List (List Char × List Char)) : Option Arrow := do
  return ⟨← id? src, ← id? dst, ← kind? (← attributes.lookup "label".toList)⟩

/-- Reads the lines behind the opening one. A statement for the name `node` says how all nodes are
drawn, and draws none. -/
def readBody : List (List Char) → Option Picture
  | [] => none
  | line :: lines => do
    match ← sentence? (scan .between line) with
    | .opening _ => none
    | .closing => if lines = [] then some {} else none
    | .node name attributes =>
      let picture ← readBody lines
      if name = "node".toList then return picture
      else return { picture with boxes := (← box? name attributes) :: picture.boxes }
    | .edge src dst attributes =>
      let picture ← readBody lines
      return { picture with arrows := (← arrow? src dst attributes) :: picture.arrows }

def readLines : List (List Char) → Option Picture
  | [] => none
  | line :: lines => do
    match ← sentence? (scan .between line) with
    | .opening _ => readBody lines
    | _ => none

/-! ## Escapes -/

theorem scan_escapeChar (t : List Char) (c : Char) (rest : List Char) :
    scan (.inText t) (escapeChar c ++ rest) = scan (.inText (t ++ [c])) rest := by
  unfold escapeChar
  split
  · rename_i hc
    subst hc
    rfl
  · split
    · rename_i hc
      subst hc
      rfl
    · split
      · rename_i hc
        subst hc
        rfl
      · rename_i hslash hquote _
        rw [List.singleton_append, scan, if_neg hslash, if_neg hquote]

/-- A text written with escapes is read as it was, up to the quote that ends it. -/
theorem scan_escape (t s rest : List Char) :
    scan (.inText t) (s.flatMap escapeChar ++ '"' :: rest) =
      .text (t ++ s) :: scan .between rest := by
  induction s generalizing t with
  | nil =>
      rw [List.append_nil]
      rfl
  | cons c s ih =>
      rw [List.flatMap_cons, List.append_assoc, scan_escapeChar, ih, List.append_assoc,
        List.singleton_append]

theorem scan_word {word : List Char} (h : ∀ c ∈ word, isWordChar c = true) (w rest : List Char) :
    scan (.inWord w) (word ++ rest) = scan (.inWord (w ++ word)) rest := by
  induction word generalizing w with
  | nil => rw [List.append_nil, List.nil_append]
  | cons c word ih =>
      rw [List.cons_append, scan, if_pos (h c List.mem_cons_self),
        ih fun d hd => h d (List.mem_cons_of_mem c hd), List.append_assoc, List.singleton_append]

theorem escapeChar_of_isWordChar {c : Char} (h : isWordChar c = true) : escapeChar c = [c] := by
  have hne : ∀ d, isWordChar d = false → c ≠ d := by
    rintro d hd rfl
    exact absurd h (Bool.eq_false_iff.mp hd)
  unfold escapeChar
  rw [if_neg (hne _ rfl), if_neg (hne _ rfl), if_neg (hne _ rfl)]

theorem escape_word {word : List Char} (h : ∀ c ∈ word, isWordChar c = true) :
    word.flatMap escapeChar = word := by
  induction word with
  | nil => rfl
  | cons c word ih =>
      rw [List.flatMap_cons, escapeChar_of_isWordChar (h c List.mem_cons_self),
        ih fun d hd => h d (List.mem_cons_of_mem c hd), List.singleton_append]

theorem newline_notMem_escapeChar (c : Char) : '\n' ∉ escapeChar c := by
  unfold escapeChar
  split
  · decide
  · split
    · decide
    · split
      · decide
      · rename_i hline
        exact fun h => hline (List.mem_singleton.mp h).symm

/-- A text in which every occurrence of a character is replaced. -/
def replaced (c : Char) (new s : List Char) : List Char :=
  s.flatMap fun d => if d = c then new else [d]

/-- The escapes are those of three passes over the whole text. The backslashes are doubled first:
the other two passes write backslashes of their own. -/
theorem escape_eq_three_passes (s : List Char) :
    s.flatMap escapeChar = replaced '\n' "\\n".toList
      (replaced '"' "\\\"".toList (replaced '\\' "\\\\".toList s)) := by
  unfold replaced
  rw [List.flatMap_assoc, List.flatMap_assoc]
  refine List.flatMap_congr fun c _ => ?_
  by_cases hslash : c = '\\'
  · subst hslash
    rfl
  by_cases hquote : c = '"'
  · subst hquote
    rfl
  simp [escapeChar, hslash, hquote]

/-! ## Names of nodes -/

/-- The name under which a node is drawn. -/
def nodeName (id : Nat) : List Char := 'N' :: Nat.toDigits 10 id

theorem isDigit_of_mem {id : Nat} {c : Char} (h : c ∈ Nat.toDigits 10 id) : c.isDigit = true :=
  Nat.isDigit_of_mem_toDigits (by decide) (by decide) h

theorem isWordChar_of_mem {id : Nat} : ∀ c ∈ Nat.toDigits 10 id, isWordChar c = true := by
  intro c hc
  simp [isWordChar, Char.isAlphanum, isDigit_of_mem hc]

theorem escape_nodeName (id : Nat) : (nodeName id).flatMap escapeChar = nodeName id := by
  refine escape_word fun c hc => ?_
  rcases List.mem_cons.mp hc with rfl | hc
  · rfl
  · exact isWordChar_of_mem c hc

theorem newline_notMem_nodeName (id : Nat) : '\n' ∉ nodeName id := by
  rw [← escape_nodeName, List.mem_flatMap]
  rintro ⟨c, -, hc⟩
  exact newline_notMem_escapeChar c hc

theorem id?_nodeName (id : Nat) : id? (nodeName id) = some id := by
  have hdigits : (Nat.toDigits 10 id).all Char.isDigit = true :=
    List.all_eq_true.mpr fun _ => isDigit_of_mem
  rw [nodeName, id?, if_pos ⟨Nat.toDigits_ne_nil, hdigits⟩, Nat.ofDigitChars_ten_toDigits]

theorem nodeName_ne_node (id : Nat) : nodeName id ≠ "node".toList := by
  intro h
  cases (List.cons.inj h).1

/-- A name at the start of a word is read to its end. -/
theorem scan_nodeName (id : Nat) (rest : List Char) :
    scan .between (nodeName id ++ rest) = scan (.inWord (nodeName id)) rest :=
  scan_word isWordChar_of_mem ['N'] rest

/-! ## Lines -/

theorem toList_nodeLine (n : Node) :
    (nodeLine n).toList = "  ".toList ++ (nodeName n.id ++ (" [label=\"".toList ++
      ((nodeName n.id ++ '\n' :: n.stmt.text.toList).flatMap escapeChar ++
        '"' :: ((nodeStyle n.stmt.kind).toList ++ "];".toList)))) := by
  rw [List.flatMap_append, escape_nodeName]
  simp [nodeLine, nodeName, escape, escapeChar]

theorem toList_edgeLine (e : Edge) :
    (edgeLine e).toList = "  ".toList ++ (nodeName e.src.id ++ (" -> ".toList ++
      (nodeName e.dst.id ++ (" [label=\"".toList ++ (e.kind.word.toList ++
        '"' :: ((edgeStyle e.kind).toList ++ "];".toList)))))) := by
  simp [edgeLine, nodeName]

theorem scan_blanks (rest : List Char) : scan .between ("  ".toList ++ rest) = scan .between rest :=
  rfl

/-- Every label begins in the same way. -/
theorem scan_label (w rest : List Char) :
    scan (.inWord w) (" [label=\"".toList ++ rest) =
      .word w :: .sign '[' :: .word "label".toList :: .sign '=' :: scan (.inText []) rest := rfl

theorem scan_arrow (w rest : List Char) :
    scan (.inWord w) (" -> ".toList ++ rest) =
      .word w :: .sign '-' :: .sign '>' :: scan .between rest := rfl

/-- The attributes of a node behind its label. -/
def nodeLook : Statement.Kind → List (List Char × List Char)
  | .conditionEntry => [("shape".toList, "diamond".toList)]
  | .branchMarker => [("style".toList, "filled".toList), ("fillcolor".toList, "#e0e0e0".toList)]
  | _ => []

/-- The attributes of an edge behind its label. -/
def edgeLook : Edge.Kind → List (List Char × List Char)
  | .fallThrough => []
  | .branchTrue => [("color".toList, "green".toList), ("fontcolor".toList, "green".toList)]
  | .branchFalse => [("color".toList, "red".toList), ("fontcolor".toList, "red".toList)]

theorem sentence?_nodeLine (n : Node) :
    sentence? (scan .between (nodeLine n).toList) = some (.node (nodeName n.id)
      (("label".toList, nodeName n.id ++ '\n' :: n.stmt.text.toList) :: nodeLook n.stmt.kind)) := by
  rw [toList_nodeLine, scan_blanks, scan_nodeName, scan_label, scan_escape, List.nil_append]
  cases n.stmt.kind <;> rfl

theorem sentence?_edgeLine (e : Edge) :
    sentence? (scan .between (edgeLine e).toList) = some (.edge (nodeName e.src.id)
      (nodeName e.dst.id) (("label".toList, e.kind.word.toList) :: edgeLook e.kind)) := by
  rw [toList_edgeLine, scan_blanks, scan_nodeName, scan_arrow, scan_nodeName, scan_label]
  cases e.kind <;> rfl

/-! ## Files -/

/-- How a statement of a kind is drawn. -/
def Display.of : Statement.Kind → Display
  | .conditionEntry => .condition
  | .branchMarker => .marker
  | _ => .other

def Box.of (n : Node) : Box := ⟨n.id, n.stmt.text, .of n.stmt.kind⟩

def Arrow.of (e : Edge) : Arrow := ⟨e.src.id, e.dst.id, e.kind⟩

theorem display_nodeLook (label : List Char) (kind : Statement.Kind) :
    display (("label".toList, label) :: nodeLook kind) = .of kind := by
  cases kind <;> rfl

theorem box?_of (n : Node) :
    box? (nodeName n.id) (("label".toList, nodeName n.id ++ '\n' :: n.stmt.text.toList) ::
      nodeLook n.stmt.kind) = some (.of n) := by
  have hstart : nodeName n.id ++ ['\n'] <+: nodeName n.id ++ '\n' :: n.stmt.text.toList :=
    ⟨n.stmt.text.toList, by rw [List.append_assoc, List.singleton_append]⟩
  have hrest : (nodeName n.id ++ '\n' :: n.stmt.text.toList).drop ((nodeName n.id).length + 1) =
      n.stmt.text.toList := by
    rw [List.drop_append]
    simp
  rw [box?, List.lookup_cons_self, Option.bind_some, if_pos hstart, id?_nodeName, Option.map_some,
    hrest, display_nodeLook, String.ofList_toList]
  rfl

theorem arrow?_of (e : Edge) :
    arrow? (nodeName e.src.id) (nodeName e.dst.id)
      (("label".toList, e.kind.word.toList) :: edgeLook e.kind) = some (.of e) := by
  have hkind : kind? e.kind.word.toList = some e.kind := by
    cases e.kind <;> rfl
  rw [arrow?, List.lookup_cons_self, id?_nodeName, id?_nodeName]
  simp only [Option.bind_eq_bind, Option.bind_some, hkind]
  rfl

theorem readBody_nodeLine (n : Node) (lines : List (List Char)) :
    readBody ((nodeLine n).toList :: lines) =
      (readBody lines).map fun p => { p with boxes := .of n :: p.boxes } := by
  rw [readBody, sentence?_nodeLine]
  cases readBody lines with
  | none => rfl
  | some p =>
      simp only [Option.bind_eq_bind, Option.bind_some, if_neg (nodeName_ne_node n.id), box?_of]
      rfl

theorem readBody_edgeLine (e : Edge) (lines : List (List Char)) :
    readBody ((edgeLine e).toList :: lines) =
      (readBody lines).map fun p => { p with arrows := .of e :: p.arrows } := by
  rw [readBody, sentence?_edgeLine]
  cases readBody lines with
  | none => rfl
  | some p =>
      simp only [Option.bind_eq_bind, Option.bind_some, arrow?_of]
      rfl

theorem readLines_opening (lines : List (List Char)) :
    readLines ("digraph CFG \x7b".toList :: lines) = readBody lines := rfl

/-- How all nodes are drawn is no node. -/
theorem readBody_defaults (lines : List (List Char)) :
    readBody ("  node [shape=box, fontname=monospace, fontsize=10];".toList :: lines) =
      readBody lines := by
  rw [readBody]
  cases readBody lines <;> rfl

theorem readBody_edgeLines (edges : List Edge) :
    readBody (edges.map (fun e => (edgeLine e).toList) ++ ["\x7d".toList]) =
      some { arrows := edges.map .of } := by
  induction edges with
  | nil => rfl
  | cons e edges ih =>
      rw [List.map_cons, List.cons_append, readBody_edgeLine, ih]
      rfl

theorem readBody_nodeLines (nodes : List Node) {lines : List (List Char)} {arrows : List Arrow}
    (h : readBody lines = some { arrows }) :
    readBody (nodes.map (fun n => (nodeLine n).toList) ++ lines) =
      some { boxes := nodes.map .of, arrows } := by
  induction nodes with
  | nil => exact h
  | cons n nodes ih =>
      rw [List.map_cons, List.cons_append, readBody_nodeLine, ih]
      rfl

theorem newline_notMem_nodeLine (n : Node) : '\n' ∉ (nodeLine n).toList := by
  have hstyle : '\n' ∉ (nodeStyle n.stmt.kind).toList := by
    cases n.stmt.kind <;> decide
  rw [toList_nodeLine]
  simp [newline_notMem_nodeName, newline_notMem_escapeChar, hstyle]

theorem newline_notMem_edgeLine (e : Edge) : '\n' ∉ (edgeLine e).toList := by
  have hkind : '\n' ∉ e.kind.word.toList ∧ '\n' ∉ (edgeStyle e.kind).toList := by
    cases e.kind <;> decide
  rw [toList_edgeLine]
  simp [newline_notMem_nodeName, hkind.1, hkind.2]

end Dot

namespace Graph

variable {g : Graph} {title : Option String}

theorem dotLines_of_untitled (h : g.effectiveTitle title = "") :
    g.dotLines title = "digraph CFG \x7b" ::
      "  node [shape=box, fontname=monospace, fontsize=10];" ::
      (g.nodes.map Dot.nodeLine ++ (g.edges.map Dot.edgeLine ++ ["\x7d"])) := by
  simp [dotLines, h, Dot.titleLines]

/-- Without a title no line of the file is broken. -/
theorem newline_notMem_dotLines (h : g.effectiveTitle title = "") :
    ∀ line ∈ g.dotLines title, '\n' ∉ line.toList := by
  intro line hline
  simp only [dotLines_of_untitled h, List.mem_cons, List.mem_append, List.mem_map,
    List.not_mem_nil, or_false] at hline
  rcases hline with rfl | rfl | ⟨n, -, rfl⟩ | ⟨e, -, rfl⟩ | rfl
  · decide
  · decide
  · exact Dot.newline_notMem_nodeLine n
  · exact Dot.newline_notMem_edgeLine e
  · decide

theorem splitOn_dot (h : g.effectiveTitle title = "") :
    (g.dot title).toList.splitOn '\n' = (g.dotLines title).map String.toList := by
  rw [dot, String.toList_intercalate]
  refine List.splitOn_intercalate '\n' ?_ ?_
  · intro line hline
    obtain ⟨text, htext, rfl⟩ := List.mem_map.mp hline
    exact newline_notMem_dotLines h text htext
  · rw [dotLines_of_untitled h]
    exact List.cons_ne_nil _ _

end Graph

/-- **A graph can be read back from its DOT file.** For every graph that is written without a title,
whatever the texts of its nodes are: the file has three lines, one for each node and one for each
edge, and the reader finds in them, in order, the id, the whole text and the display of every node
and the two ids and the kind of every edge. -/
theorem dot_reads_back (g : Graph) (title : Option String) (h : g.effectiveTitle title = "") :
    let lines := (g.dot title).toList.splitOn '\n'
    lines.length = 3 + g.nodes.length + g.edges.length ∧
      Dot.readLines lines = some { boxes := g.nodes.map .of, arrows := g.edges.map .of } := by
  intro lines
  have hlines : lines = "digraph CFG \x7b".toList ::
      "  node [shape=box, fontname=monospace, fontsize=10];".toList ::
      (g.nodes.map (fun n => (Dot.nodeLine n).toList) ++
        (g.edges.map (fun e => (Dot.edgeLine e).toList) ++ ["\x7d".toList])) := by
    refine (Graph.splitOn_dot h).trans ?_
    rw [Graph.dotLines_of_untitled h]
    simp only [List.map_cons, List.map_append, List.map_map, List.map_nil, Function.comp_def]
  rw [hlines]
  constructor
  · simp only [List.length_cons, List.length_append, List.length_map, List.length_nil]
    omega
  · rw [Dot.readLines_opening, Dot.readBody_defaults]
    exact Dot.readBody_nodeLines g.nodes (Dot.readBody_edgeLines g.edges)

/-- A condition with escapes in it, and a text that would end its label, close the graph and draw
an edge. The graph has a name, but an empty title is asked for. -/
def hostileText : Graph :=
  let condition : Node := ⟨0, 0, .condition "c == '\\n' && \"\\\\\"" [] {}⟩
  let hostile : Node := ⟨0, 1, .expression "\"];\n\x7d\n  N7 -> N8 [label=\"\\" [] {}⟩
  { name := some "f", nodes := [condition, hostile], edges := [⟨condition, hostile, .branchTrue⟩] }

theorem dot_reads_back_hostileText :
    let lines := (hostileText.dot (some "")).toList.splitOn '\n'
    hostileText.effectiveTitle (some "") = "" ∧ lines.length = 6 ∧
      Dot.readLines lines = some {
        boxes := [⟨0, "if(c == '\\n' && \"\\\\\")", .condition⟩,
          ⟨1, "\"];\n\x7d\n  N7 -> N8 [label=\"\\", .other⟩],
        arrows := [⟨0, 1, .branchTrue⟩] } :=
  ⟨rfl, dot_reads_back hostileText (some "") rfl⟩

end NullSafety
