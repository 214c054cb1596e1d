import NullSafety.Event
import NullSafety.Options
import NullSafety.Token.Piece

/-!
Pieces of a token list read as events. Which tokens belong together is known by then; here a
statement is told to be a jump, a declaration, an assignment or an expression, and the names it
dereferences are taken from the syntax tree.
-/

namespace NullSafety

/-- What is read, in order. -/
inductive Item where
  | event (e : Event)
  | issue (i : Issue)
  deriving DecidableEq, Repr

namespace Token

def isJumpKeyword (s : String) : Bool :=
  s = "return" || s = "break" || s = "continue" || s = "goto"

/-- Whether the token names a variable with a number other than zero. -/
def namesVariable (t : Token) : Except TokenFault Bool :=
  match t.varId with
  | none => .ok false
  | some id =>
    if id.isMissing then .ok false
    else
      match id.value? with
      | some value => .ok (value ≠ 0)
      | none => .error .unreadableNumber

end Token

namespace TokenList

def namesVariable (ts : TokenList) (i : Nat) : Except TokenFault Bool :=
  match ts.tokens[i]? with
  | some t => t.namesVariable
  | none => .ok false

/-- The operand a token dereferences: a star with one operand, or a dot written as an arrow. -/
def dereferenced? (ts : TokenList) (i : Nat) : Option Nat :=
  match ts.tokens[i]? with
  | none => none
  | some t =>
    if t.text = "*" ∧ t.operand2 = none then t.operand1
    else if t.text = "." ∧ t.spelling = some "->" then t.operand1
    else none

/-- The variables dereferenced by the tokens, in order. -/
def dereferences (ts : TokenList) : List Nat → Except TokenFault (List String)
  | [] => .ok []
  | i :: rest =>
    match ts.dereferenced? i with
    | none => ts.dereferences rest
    | some operand => do
      let isVariable ← ts.namesVariable operand
      let names ← ts.dereferences rest
      .ok (if isVariable then ts.textAt operand :: names else names)

/-- The index of the first token with a text that is outside all brackets. -/
def topLevel? (ts : TokenList) (text : String) (depth : Int) (index : Nat) :
    List Nat → Option Nat
  | [] => none
  | i :: rest =>
    let s := ts.textAt i
    if Cut.isOpener s then ts.topLevel? text (depth + 1) (index + 1) rest
    else if Cut.isCloser s then ts.topLevel? text (depth - 1) (index + 1) rest
    else if depth = 0 ∧ s = text then some index
    else ts.topLevel? text depth (index + 1) rest

/-- Whether the tokens together spell the null pointer. -/
def spellsNull (ts : TokenList) (o : Options) (positions : List Nat) : Bool :=
  o.isNullLiteral (String.join (positions.map ts.textAt))

/-- The variable that the token declares, if it is the one that does. -/
def declares? (ts : TokenList) (i : Nat) : Option DeclaredVariable :=
  match (ts.tokens[i]?.bind Token.decl).bind fun d => ts.declared[d]? with
  | some v => if v.nameToken = some i then some v else none
  | none => none

/-- The first token that declares a variable, its variable, and the tokens after it. -/
def declaration? (ts : TokenList) : List Nat → Option (Nat × DeclaredVariable × List Nat)
  | [] => none
  | i :: rest =>
    match ts.declares? i with
    | some v => some (i, v, rest)
    | none => ts.declaration? rest

def refAt (ts : TokenList) (i : Nat) : SourceRef :=
  match ts.tokens[i]? with
  | some t => ⟨t.file, t.line, some i⟩
  | none => ⟨"", none, some i⟩

/-- The text of a token, if it names a variable. -/
def variableAt (ts : TokenList) : List Nat → Except TokenFault (Option String)
  | [i] => do
    let isVariable ← ts.namesVariable i
    .ok (if isVariable then some (ts.textAt i) else none)
  | _ => .ok none

/-- Reads the tokens of a plain statement. -/
def readStatement (ts : TokenList) (o : Options) (first : Nat) (rest : List Nat) :
    Except TokenFault Event := do
  let tokens := first :: rest
  let text := ts.join tokens ++ ";"
  if Token.isJumpKeyword (ts.textAt first) then
    let returned ← if ts.textAt first = "return" then ts.variableAt rest else .ok none
    .ok (.jump text returned (← ts.dereferences tokens) (ts.refAt first))
  else
    match ts.declaration? tokens with
    | some (i, v, after) =>
      let equals := ts.topLevel? "=" 0 0 after
      let initializer :=
        match equals with
        | some k => after.drop (k + 1)
        | none => []
      .ok (.declaration text (some (ts.textAt i)) v.isPointer (ts.spellsNull o initializer)
        equals.isSome (← ts.dereferences initializer) (ts.refAt i))
    | none =>
      match ts.topLevel? "=" 0 0 tokens with
      | some (k + 1) =>
        let target ← ts.variableAt (tokens.take (k + 1))
        .ok (.assignment text target (ts.spellsNull o (tokens.drop (k + 2)))
          (← ts.dereferences tokens) (ts.refAt (tokens.getD (k + 1) first)))
      | _ => .ok (.expression text (← ts.dereferences tokens) (ts.refAt first))

/-- Reads a piece. -/
def readPiece (ts : TokenList) (o : Options) : Piece → Except TokenFault (List Item)
  | .statement [] => .ok []
  | .statement (first :: rest) => do .ok [.event (← ts.readStatement o first rest)]
  | .enter keyword condition => do
    .ok [.event (.enter (ts.join condition) (← ts.dereferences condition) (ts.refAt keyword))]
  | .orElse => .ok [.event .orElse]
  | .exit => .ok [.event .exit]
  | .issue i => .ok [.issue i]

/-- Reads pieces until one cannot be read, or else until the walk itself ended in `fault`. -/
def readPieces (ts : TokenList) (o : Options) (fault : Option TokenFault) :
    List Piece → List Item × Option TokenFault
  | [] => ([], fault)
  | piece :: rest =>
    match ts.readPiece o piece with
    | .error e => ([], some e)
    | .ok items =>
      let (later, e) := ts.readPieces o fault rest
      (items ++ later, e)

end TokenList

end NullSafety
