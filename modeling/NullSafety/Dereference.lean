import NullSafety.Text.Blank
import NullSafety.Text.Word

/-!
Dereferences found in the text of a statement. They are looked for by shape alone, `*name` and
`name->`, so a product reads like a dereference too.
-/

namespace NullSafety

namespace Dereference

/-- A name, and where in the text its dereference begins. -/
structure Site where
  position : Nat
  name : List Char
  deriving DecidableEq, Repr

/-- What a shape finds at the very start of a text: how many characters it takes, and the name. -/
abbrev Shape := List Char → Option (Nat × List Char)

/-- The name a text starts with. -/
def nameAt (cs : List Char) : Option (List Char) :=
  match cs.takeWhile Text.isWord with
  | [] => none
  | c :: rest => if Text.isNameStart c then some (c :: rest) else none

/-- A star, blanks, and a name. -/
def starShape : Shape
  | '*' :: cs =>
    let blanks := cs.takeWhile Text.isBlank
    (nameAt (cs.dropWhile Text.isBlank)).map fun name => (1 + blanks.length + name.length, name)
  | _ => none

/-- A name, blanks, and an arrow. -/
def arrowShape : Shape := fun cs =>
  match nameAt cs with
  | none => none
  | some name =>
    let rest := cs.dropWhile Text.isWord
    let blanks := rest.takeWhile Text.isBlank
    match rest.dropWhile Text.isBlank with
    | '-' :: '>' :: _ => some (name.length + blanks.length + 2, name)
    | _ => none

/-- The places where a shape is found, from left to right. What one of them takes is not looked
at again: `skip` characters are still to be passed over. -/
def scan (shape : Shape) : (position skip : Nat) → List Char → List Site
  | _, _, [] => []
  | position, skip + 1, _ :: cs => scan shape (position + 1) skip cs
  | position, 0, c :: cs =>
    match shape (c :: cs) with
    | some (taken, name) => ⟨position, name⟩ :: scan shape (position + 1) (taken - 1) cs
    | none => scan shape (position + 1) 0 cs

/-- Puts a site in front of the first one that begins after it. -/
def insertSite (s : Site) : List Site → List Site
  | [] => [s]
  | t :: ts => if s.position < t.position then s :: t :: ts else t :: insertSite s ts

/-- All sites, in the order of the text. -/
def sites (cs : List Char) : List Site :=
  (scan arrowShape 0 0 cs).foldr insertSite (scan starShape 0 0 cs)

/-- The names dereferenced in a text. -/
def names (text : String) : List String :=
  (sites text.toList).map fun s => String.ofList s.name

/-- What stands after the first equals sign. -/
def initializer? : List Char → Option (List Char)
  | [] => none
  | c :: cs => if c = '=' then some cs else initializer? cs

/-- The names dereferenced in a declaration. What it declares stands before the first equals sign
and is not dereferenced, even if it looks so. -/
def declarationNames (text : String) : List String :=
  match initializer? text.toList with
  | none => []
  | some cs => names (String.ofList cs)

/-- Stars and arrows do not hide one another. -/
example : names "**p + *q->next" = ["p", "q", "q"] := by decide +kernel

/-- A digit in front is no part of a name. -/
example : names "2x -> y" = ["x"] := by decide +kernel

example : declarationNames "int *p = *q;" = ["q"] := by decide +kernel

/-- The names given, or else those found in the text. -/
def namesOr (given : Option (List String)) (text : String) : List String :=
  given.getD (names text)

/-- The names given, or else those found in the text of a declaration. -/
def declarationNamesOr (given : Option (List String)) (text : String) : List String :=
  given.getD (declarationNames text)

end Dereference

end NullSafety
