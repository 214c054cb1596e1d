import NullSafety.Nullability

/-!
What a check reports: a dereference of a pointer that is null on some path, the return of a null
pointer, or that there is nothing to report.
-/

namespace NullSafety

/-- The statement a finding is about, and where it stands. -/
structure Place where
  text : String
  node : Int := -1
  file : String := ""
  line : Int := 0
  deriving DecidableEq, Repr

inductive Finding where
  | dereference (name : Option String) (nullability : Nullability) (place : Place)
  | nullReturn (name : Option String) (place : Place)
  /-- A check that found nothing says so. -/
  | clean
  deriving DecidableEq, Repr

namespace Finding

def isClean : Finding → Bool
  | .clean => true
  | _ => false

def isDereference : Finding → Bool
  | .dereference .. => true
  | _ => false

def isReturn : Finding → Bool
  | .nullReturn .. => true
  | _ => false

def place? : Finding → Option Place
  | .dereference _ _ place => some place
  | .nullReturn _ place => some place
  | .clean => none

/-- Identifies the kind of finding. A dereference is definite if the pointer is null, and
possible otherwise. -/
def id : Finding → String
  | .dereference _ nullability _ =>
    if nullability = .null then "nullDeref" else "nullDerefPossible"
  | .nullReturn .. => "nullReturn"
  | .clean => "noFindings"

/-- Said of a check that found nothing. -/
def cleanMessage : String := "No potential null pointer dereferences found"

/-- How a message spells a variable that is not known. -/
def spell (name : Option String) : String := name.getD "None"

def message : Finding → String
  | .dereference name nullability _ =>
    if nullability = .null then "Null pointer dereference: '" ++ spell name ++ "' is null"
    else "Possible null pointer dereference: '" ++ spell name ++ "' may be null"
  | .nullReturn name _ => "Returning a null pointer '" ++ spell name ++ "'"
  | .clean => cleanMessage

/-- The weakness all findings are instances of, by its number in the common enumeration. -/
def cwe : Nat := 476

/-- The finding without its file and line. -/
def forgetSource : Finding → Finding
  | .dereference name nullability place =>
    .dereference name nullability { place with file := "", line := 0 }
  | .nullReturn name place => .nullReturn name { place with file := "", line := 0 }
  | .clean => .clean

/-- Equality up to file and line. -/
def sameAs (a b : Finding) : Bool := a.forgetSource = b.forgetSource

end Finding

end NullSafety
