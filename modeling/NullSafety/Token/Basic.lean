import NullSafety.Text.Numeral

/-!
Source code as a list of tokens. Brackets carry links to their partners, operators carry the
operands of the syntax tree, and tokens that name a variable know which. Tokens are named by
their position, and what follows a token is the token at the next position. Nothing is promised
about the links: they may be missing or lead anywhere.
-/

namespace NullSafety

/-- What is known about a variable from its declaration. -/
structure DeclaredVariable where
  isPointer : Bool := false
  /-- The token that declares it. -/
  nameToken : Option Nat := none

structure Token where
  text : String := ""
  link : Option Nat := none
  operand1 : Option Nat := none
  operand2 : Option Nat := none
  /-- The number of the variable the token names. -/
  varId : Option Numeral := none
  /-- The variable the token names, by its position among those declared. -/
  decl : Option Nat := none
  /-- The spelling in the source, where `text` is a simplified one. -/
  spelling : Option String := none
  file : String := ""
  line : Option Numeral := none

structure TokenList where
  tokens : Array Token := #[]
  declared : Array DeclaredVariable := #[]

/-- A position in a token list, or its end. -/
abbrev Cursor := Option Nat

namespace TokenList

def size (ts : TokenList) : Nat := ts.tokens.size

/-- The token after a position. -/
def next (ts : TokenList) (i : Nat) : Cursor := if i + 1 < ts.size then some (i + 1) else none

def link? (ts : TokenList) (i : Nat) : Option Nat := ts.tokens[i]?.bind Token.link

def textAt (ts : TokenList) (i : Nat) : String :=
  match ts.tokens[i]? with
  | some t => t.text
  | none => ""

/-- The text at a cursor; at the end there is none. -/
def textOf (ts : TokenList) : Cursor → String
  | some i => ts.textAt i
  | none => ""

/-- Whether a token was written as an arrow. -/
def isArrow (ts : TokenList) (i : Nat) : Bool :=
  (ts.tokens[i]?.bind Token.spelling) = some "->"

/-- The text as it was written: an arrow may have been simplified. -/
def spellingAt (ts : TokenList) (i : Nat) : String :=
  if ts.isArrow i then "->" else ts.textAt i

/-- The tokens as text, with single spaces between them. -/
def join (ts : TokenList) (positions : List Nat) : String :=
  " ".intercalate (positions.map ts.spellingAt)

/-- The positions after one token and before another. Behind a token that does not follow the
first, they go on to the end of the list. -/
def between (ts : TokenList) (opening closing : Nat) : List Nat :=
  let stop := if opening < closing then closing else ts.size
  List.range' (opening + 1) (stop - (opening + 1))

/-- The opening parenthesis at a cursor, with its link. -/
def parenAt (ts : TokenList) : Cursor → Option (Nat × Nat)
  | none => none
  | some i => if ts.textAt i = "(" then (ts.link? i).map fun k => (i, k) else none

end TokenList

end NullSafety
