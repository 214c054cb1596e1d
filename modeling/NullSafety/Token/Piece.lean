import NullSafety.Issue
import NullSafety.Token.Basic

/-!
A stretch of tokens cut into pieces: plain statements, and the conditions, else branches and ends
of `if` statements. Blocks are flattened into the statements around them. Loops are not modelled;
they are passed over, and that is an issue.

A limit ends a stretch. Links are followed wherever they lead, so cutting may leave its stretch,
see tokens twice, run off the list, or never end. What is cut depends on the kind of cut, the
cursor and the limit alone, so a cut that comes back to all three before it has ended goes round
for ever: as many steps in depth as there are such triples are enough for every cut that ends.
-/

namespace NullSafety

/-- Why tokens cannot be read. -/
inductive TokenFault where
  /-- A bracket was followed past the last token. -/
  | ranOff
  /-- The number of a variable is no number. -/
  | unreadableNumber
  /-- The links lead round in a circle. -/
  | endless
  deriving DecidableEq, Repr

inductive Piece where
  /-- The tokens of a plain statement, without the semicolon. -/
  | statement (tokens : List Nat)
  /-- An `if` token, and the tokens of its condition. -/
  | enter (keyword : Nat) (condition : List Nat)
  | orElse
  | exit
  | issue (i : Issue)
  deriving DecidableEq, Repr

/-- The pieces cut so far, and what the cut came to. -/
structure Cut (α : Type) where
  pieces : List Piece
  result : Except TokenFault α

namespace Cut

def emit (piece : Piece) : Cut Unit := ⟨[piece], .ok ()⟩

def fail {α : Type} (fault : TokenFault) : Cut α := ⟨[], .error fault⟩

def ofExcept {α : Type} (r : Except TokenFault α) : Cut α := ⟨[], r⟩

/-- What has been cut stays cut, whatever comes of the rest. -/
def andThen {α β : Type} (c : Cut α) (f : α → Cut β) : Cut β :=
  match c.result with
  | .error fault => ⟨c.pieces, .error fault⟩
  | .ok a => ⟨c.pieces ++ (f a).pieces, (f a).result⟩

instance : Monad Cut where
  pure a := ⟨[], .ok a⟩
  bind := andThen

def isLoopKeyword (s : String) : Bool := s = "while" || s = "for" || s = "do" || s = "switch"

def isOpener (s : String) : Bool := s = "(" || s = "[" || s = "\x7b"

def isCloser (s : String) : Bool := s = ")" || s = "]" || s = "\x7d"

/-- The tokens from a cursor to the next semicolon outside brackets or to the limit, and where to
go on. An opening bracket with a link is taken whole, past the limit if need be; one whose link
lies behind it has no end. -/
def statementLoop (ts : TokenList) (limit : Nat) :
    Nat → Cursor → Except TokenFault (List Nat × Cursor)
  | _, none => .ok ([], none)
  | 0, some _ => .error .endless
  | steps + 1, some i =>
    if i = limit then .ok ([], some i)
    else if ts.textAt i = ";" then .ok ([], ts.next i)
    else
      let last := if isOpener (ts.textAt i) then (ts.link? i).getD i else i
      if last < i then .error .ranOff
      else do
        let (rest, cursor) ← statementLoop ts limit steps (ts.next last)
        .ok (List.range' i (last + 1 - i) ++ rest, cursor)

/-- Every step goes forward, so there are no more than there are tokens. -/
def statementFrom (ts : TokenList) (cursor : Cursor) (limit : Nat) :
    Except TokenFault (List Nat × Cursor) :=
  statementLoop ts limit (ts.size + 1) cursor

/-- Passes over a statement. -/
def passStatement (ts : TokenList) (cursor : Cursor) (limit : Nat) : Cut Cursor := do
  let (_, cursor) ← ofExcept (statementFrom ts cursor limit)
  pure cursor

/-- Cuts off a plain statement, unless there is nothing of it. -/
def statement (ts : TokenList) (cursor : Cursor) (limit : Nat) : Cut Cursor := do
  let (tokens, cursor) ← ofExcept (statementFrom ts cursor limit)
  if tokens.isEmpty then pure cursor
  else do
    emit (.statement tokens)
    pure cursor

/-- That a loop is passed over. The issue shows the head of the loop, or its keyword if it has
none. -/
def loopIssue (ts : TokenList) (i : Nat) : Issue :=
  let shown :=
    match ts.parenAt (ts.next i) with
    | some (_, closing) => ts.join (ts.between i closing)
    | none => ts.textAt i
  ⟨.malformedInput, "unsupported construct '" ++ ts.textAt i ++ "' skipped", some shown⟩

mutual

/-- Passes over a branch: a block, an `if` with its branches, a loop, or a single statement. -/
def passBranch (ts : TokenList) (limit : Nat) (steps : Nat) (cursor : Cursor) : Cut Cursor :=
  match steps, cursor with
  | 0, _ => fail .endless
  | _ + 1, none => pure none
  | steps + 1, some i =>
    if i = limit then pure (some i)
    else if ts.textAt i = "\x7b" then
      match ts.link? i with
      | some closing => pure (ts.next closing)
      | none => passStatement ts (some i) limit
    else if ts.textAt i = "if" then
      match ts.parenAt (ts.next i) with
      | none => passStatement ts (some i) limit
      | some (_, closing) => do
        let cursor ← passBranch ts limit steps (ts.next closing)
        match cursor with
        | none => pure none
        | some j =>
          if j ≠ limit ∧ ts.textAt j = "else" then passBranch ts limit steps (ts.next j)
          else pure (some j)
    else if isLoopKeyword (ts.textAt i) then passLoop ts limit steps i
    else passStatement ts (some i) limit
termination_by structural steps

/-- Passes over a loop with its body. -/
def passLoop (ts : TokenList) (limit : Nat) (steps : Nat) (i : Nat) : Cut Cursor :=
  match steps with
  | 0 => fail .endless
  | steps + 1 => do
    emit (.issue (loopIssue ts i))
    if ts.textAt i = "do" then do
      let cursor ← passBranch ts limit steps (ts.next i)
      if ts.textOf cursor = "while" then passStatement ts cursor limit else pure cursor
    else
      match ts.parenAt (ts.next i) with
      | some (_, closing) => passBranch ts limit steps (ts.next closing)
      | none => passStatement ts (some i) limit
termination_by structural steps

end

mutual

/-- Cuts the statements from a cursor to the limit. -/
def range (ts : TokenList) (limit : Nat) (steps : Nat) (cursor : Cursor) : Cut Unit :=
  match steps, cursor with
  | 0, _ => fail .endless
  | _ + 1, none => pure ()
  | steps + 1, some i =>
    if i = limit then pure ()
    else if ts.textAt i = "\x7b" ∧ (ts.link? i).isSome then do
      let closing := (ts.link? i).getD i
      range ts closing steps (ts.next i)
      range ts limit steps (ts.next closing)
    else if ts.textAt i = ";" then range ts limit steps (ts.next i)
    else if ts.textAt i = "if" then do
      let cursor ← conditional ts limit steps i
      range ts limit steps cursor
    else if isLoopKeyword (ts.textAt i) then do
      let cursor ← passLoop ts limit steps i
      range ts limit steps cursor
    else if ts.textAt i = "else" then do
      emit (.issue ⟨.structuralInconsistency, "'else' token outside of an 'if' statement", none⟩)
      range ts limit steps (ts.next i)
    else do
      let cursor ← statement ts (some i) limit
      range ts limit steps cursor
termination_by structural steps

/-- Cuts one branch: a block, or a single statement. -/
def branch (ts : TokenList) (limit : Nat) (steps : Nat) (cursor : Cursor) : Cut Cursor :=
  match steps, cursor with
  | 0, _ => fail .endless
  | _ + 1, none => pure none
  | steps + 1, some i =>
    if i = limit then pure (some i)
    else if ts.textAt i = "\x7b" ∧ (ts.link? i).isSome then do
      let closing := (ts.link? i).getD i
      range ts closing steps (ts.next i)
      pure (ts.next closing)
    else if ts.textAt i = "if" then conditional ts limit steps i
    else if isLoopKeyword (ts.textAt i) then passLoop ts limit steps i
    else if ts.textAt i = ";" then pure (ts.next i)
    else statement ts (some i) limit
termination_by structural steps

/-- Cuts an `if` with its branches. Without a condition in parentheses it is passed over. -/
def conditional (ts : TokenList) (limit : Nat) (steps : Nat) (i : Nat) : Cut Cursor :=
  match steps with
  | 0 => fail .endless
  | steps + 1 =>
    match ts.parenAt (ts.next i) with
    | none => do
      emit (.issue ⟨.malformedInput, "'if' without a parenthesised condition", none⟩)
      passStatement ts (ts.next i) limit
    | some (opening, closing) => do
      emit (.enter i (ts.between opening closing))
      let cursor ← branch ts limit steps (ts.next closing)
      let cursor ←
        match cursor with
        | none => pure none
        | some j =>
          if j ≠ limit ∧ ts.textAt j = "else" then do
            emit .orElse
            branch ts limit steps (ts.next j)
          else pure (some j)
      emit .exit
      pure cursor
termination_by structural steps

end

/-- Enough steps in depth for every cut that ends: five kinds of cut, each with a cursor and a
limit. -/
def enough (ts : TokenList) : Nat := 5 * (ts.size + 1) * (ts.size + 1) + 1

/-- Cuts the tokens between two brackets. -/
def body (ts : TokenList) (opening closing : Nat) : Cut Unit :=
  range ts closing (enough ts) (ts.next opening)

end Cut

end NullSafety
