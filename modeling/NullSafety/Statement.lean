import NullSafety.Text.Numeral

/-!
Statements, with everything the analysis needs to know about them: which variable they declare,
assign or return, what they store in it, and which names they dereference. The text is only
shown, never read again.
-/

namespace NullSafety

inductive Statement.Kind where
  | declaration
  | assignment
  | expression
  | jump
  /-- The condition of an `if`. -/
  | conditionEntry
  /-- A point of the branch structure without code of its own. -/
  | branchMarker
  deriving DecidableEq, Repr

def Statement.Kind.word : Statement.Kind → String
  | .declaration => "declaration"
  | .assignment => "assignment"
  | .expression => "expression"
  | .jump => "jump"
  | .conditionEntry => "condition-entry"
  | .branchMarker => "branch-marker"

/-- Where a marker stands: at the start of an else branch, or where the branches meet again. -/
inductive Statement.Role where
  | orElse
  | join
  deriving DecidableEq, Repr

def Statement.Role.word : Statement.Role → String
  | .orElse => "else"
  | .join => "join"

/-- Where a statement was written. Nothing but the report reads it. -/
structure SourceRef where
  file : String := ""
  line : Option Numeral := none
  /-- The position in the token list of the token that stands for the statement. -/
  token : Option Nat := none
  deriving DecidableEq, Repr

namespace SourceRef

/-- The line number, 0 when there is none. There is no value when the line cannot be read. -/
def lineNumber? (ref : SourceRef) : Option Int :=
  match ref.line with
  | none => some 0
  | some line => if line.isMissing then some 0 else line.value?

end SourceRef

structure Statement where
  kind : Statement.Kind
  text : String
  /-- The variable declared, assigned or returned. -/
  name : Option String := none
  /-- Of a declaration: the variable is a pointer. -/
  isPointer : Bool := false
  /-- The value stored is the null pointer. -/
  isNull : Bool := false
  /-- Of a declaration: it stores a value. -/
  hasInitializer : Bool := false
  /-- The names dereferenced, in the order of the text. -/
  dereferences : List String := []
  /-- Of a marker: where it stands. -/
  role : Option Statement.Role := none
  ref : SourceRef := {}
  deriving DecidableEq, Repr

namespace Statement

/-- A declaration stores the null pointer only if it stores anything. -/
def declaration (text : String) (name : Option String) (isPointer initializerIsNull : Bool)
    (hasInitializer : Bool) (dereferences : List String) (ref : SourceRef) : Statement :=
  { kind := .declaration, text, name, isPointer, isNull := initializerIsNull && hasInitializer,
    hasInitializer, dereferences, ref }

def assignment (text : String) (name : Option String) (valueIsNull : Bool)
    (dereferences : List String) (ref : SourceRef) : Statement :=
  { kind := .assignment, text, name, isNull := valueIsNull, dereferences, ref }

def expression (text : String) (dereferences : List String) (ref : SourceRef) : Statement :=
  { kind := .expression, text, dereferences, ref }

/-- A jump; `returned` is the variable whose value it returns. -/
def jump (text : String) (returned : Option String) (dereferences : List String)
    (ref : SourceRef) : Statement :=
  { kind := .jump, text, name := returned, dereferences, ref }

def condition (condition : String) (dereferences : List String) (ref : SourceRef) : Statement :=
  { kind := .conditionEntry, text := "if(" ++ condition ++ ")", dereferences, ref }

def marker (role : Statement.Role) : Statement :=
  { kind := .branchMarker, text := role.word, role := some role }

def isMarker (s : Statement) : Bool := s.kind = .branchMarker

def isJoin (s : Statement) : Bool := s.role = some .join

/-- Whether the statement may change what is known about a variable. -/
def updatesState (s : Statement) : Bool := s.kind = .declaration || s.kind = .assignment

/-- Equality up to the place in the source. -/
def sameAs (s t : Statement) : Bool := { s with ref := {} } = { t with ref := {} }

end Statement

end NullSafety
