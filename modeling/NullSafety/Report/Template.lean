import NullSafety.Text.Blank
import NullSafety.Text.Word

/-!
Templates: text with places where named values are inserted, each a name between double braces.
Reading a template is apart from filling it in, so that one that cannot be read fails whatever the
values are.
-/

namespace NullSafety

namespace Template

inductive Part where
  | char (c : Char)
  | value (name : String)
  deriving DecidableEq, Repr

/-- What an opening brace may begin, and how many characters it takes. -/
inductive Tag where
  | value (name : String) (length : Nat)
  | comment (length : Nat)
  | malformed
  deriving DecidableEq, Repr

/-- What follows two opening braces: a name with blanks around it, and two closing braces. -/
def valueTag (cs : List Char) : Tag :=
  let before := cs.takeWhile Text.isBlank
  let body := cs.dropWhile Text.isBlank
  let name := body.takeWhile Text.isWord
  let rest := body.dropWhile Text.isWord
  let after := rest.takeWhile Text.isBlank
  match name, rest.dropWhile Text.isBlank with
  | c :: _, '\x7d' :: '\x7d' :: _ =>
    if c.isDigit then .malformed
    else .value (String.ofList name) (4 + before.length + name.length + after.length)
  | _, _ => .malformed

/-- How far it is to the end of a comment. -/
def commentLength? : List Char → Option Nat
  | [] => none
  | '#' :: '\x7d' :: _ => some 2
  | _ :: cs => (commentLength? cs).map (· + 1)

/-- The tag a text begins with, unless its first character stands for itself. -/
def tag? : List Char → Option Tag
  | '\x7b' :: '\x7b' :: cs => some (valueTag cs)
  | '\x7b' :: '#' :: cs =>
    match commentLength? cs with
    | some n => some (.comment (2 + n))
    | none => some .malformed
  | '\x7b' :: '%' :: _ => some .malformed
  | _ => none

/-- Reads a template; `skip` characters are still to be passed over. -/
def partsFrom? : (skip : Nat) → List Char → Option (List Part)
  | _, [] => some []
  | skip + 1, _ :: cs => partsFrom? skip cs
  | 0, c :: cs =>
    match tag? (c :: cs) with
    | none => (partsFrom? 0 cs).map (.char c :: ·)
    | some (.value name length) => (partsFrom? (length - 1) cs).map (.value name :: ·)
    | some (.comment length) => partsFrom? (length - 1) cs
    | some .malformed => none

/-- Line breaks of every kind become line feeds. -/
def unifyBreaks : List Char → List Char
  | '\r' :: '\n' :: cs => '\n' :: unifyBreaks cs
  | '\r' :: cs => '\n' :: unifyBreaks cs
  | c :: cs => c :: unifyBreaks cs
  | [] => []

/-- The text without a line break at its very end. -/
def dropLastBreak (cs : List Char) : List Char :=
  if cs.getLast? = some '\n' then cs.dropLast else cs

/-- The parts of a template, unless it is malformed. -/
def parts? (template : String) : Option (List Part) :=
  partsFrom? 0 (dropLastBreak (unifyBreaks template.toList))

/-- A value without a name among the values is empty. -/
def Part.fill (values : List (String × String)) : Part → List Char
  | .char c => [c]
  | .value name => ((values.lookup name).getD "").toList

def fill (values : List (String × String)) (parts : List Part) : String :=
  String.ofList (parts.flatMap (Part.fill values))

theorem fill_append (values : List (String × String)) (xs ys : List Part) :
    fill values (xs ++ ys) = fill values xs ++ fill values ys := by
  simp only [fill, List.flatMap_append, String.ofList_append]

example : (parts? "n: \x7b\x7b n \x7d\x7d.").map (fill [("n", "3")]) = some "n: 3." := by
  decide +kernel

/-- A third brace makes no name. -/
example : parts? "\x7b\x7b\x7bn\x7d\x7d\x7d" = none := by decide +kernel

end Template

end NullSafety
