import NullSafety.Text.Blank

/-!
Pathnames in their simplest form: where they start, and the names that follow. Empty names and
single dots lead nowhere and are left out; a double dot leads up and stays.
-/

namespace NullSafety

structure Pathname where
  /-- The slashes a path from the root starts with, and nothing for one that starts here. -/
  anchor : String := ""
  names : List String := []
  deriving DecidableEq, Repr

namespace Pathname

/-- Two slashes at the start are kept; any other number of them counts as one. -/
def anchorOf (slashes : Nat) : String :=
  match slashes with
  | 0 => ""
  | 2 => "//"
  | _ => "/"

def ofString (text : String) : Pathname :=
  { anchor := anchorOf (text.toList.takeWhile (· = '/')).length
    names := ((Text.fields '/' text.toList).map String.ofList).filter fun name =>
      name ≠ "" ∧ name ≠ "." }

/-- A path may hold any character but the null character. -/
def ofString? (text : String) : Option Pathname :=
  if text.toList.contains '\x00' then none else some (ofString text)

/-- How the path is written; here is a single dot. -/
def text (p : Pathname) : String :=
  let written := p.anchor ++ "/".intercalate p.names
  if written = "" then "." else written

/-- The way up that a path begins with. -/
def ascent (p : Pathname) : List String := p.names.takeWhile (· = "..")

/-- The names after the way up. -/
def descent (p : Pathname) : List String := p.names.dropWhile (· = "..")

/-- Nothing lies between the way up and the names after it. -/
theorem ascent_append_descent (p : Pathname) : p.ascent ++ p.descent = p.names :=
  List.takeWhile_append_dropWhile

/-- Whether the path is a single name here. -/
def isHere (p : Pathname) : Bool := p.anchor = "" && p.ascent = [] && p.descent.length = 1

/-- The most bytes a name may take. -/
def nameLimit : Nat := 255

/-- The most bytes a written path may take. -/
def textLimit : Nat := 4095

example : (ofString "a//./b/").text = "a/b" := by decide +kernel
example : (ofString "//a").text = "//a" ∧ (ofString "///a").text = "/a" := by decide +kernel
example : (ofString "./").text = "." := by decide +kernel

end Pathname

end NullSafety
