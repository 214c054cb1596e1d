import NullSafety.Finding
import NullSafety.Text.Numeral

/-!
How grave a finding is, and how many findings there are of each gravity.
-/

namespace NullSafety

inductive Colour where
  | red | green | yellow | blue | cyan | white
  deriving DecidableEq, Repr

inductive Severity where
  | error
  | warning
  | information
  deriving DecidableEq, Repr

namespace Severity

def name : Severity → String
  | .error => "ERROR"
  | .warning => "WARNING"
  | .information => "INFORMATION"

/-- The word used in report lines. -/
def word : Severity → String
  | .error => "error"
  | .warning => "warning"
  | .information => "information"

def colour : Severity → Colour
  | .error => .red
  | .warning => .yellow
  | .information => .white

/-- The level of a result in a SARIF document. -/
def sarifLevel : Severity → String
  | .error => "error"
  | .warning => "warning"
  | .information => "note"

/-- A dereference of a pointer known to be null is an error; whatever else is found is a
warning. -/
def ofFinding : Finding → Severity
  | .clean => .information
  | .dereference _ nullability _ => if nullability = .null then .error else .warning
  | .nullReturn .. => .warning

end Severity

/-- Counts by severity. -/
structure Tally where
  error : Int := 0
  warning : Int := 0
  information : Int := 0
  deriving DecidableEq, Repr

namespace Tally

def record (t : Tally) : Severity → Tally
  | .error => { t with error := t.error + 1 }
  | .warning => { t with warning := t.warning + 1 }
  | .information => { t with information := t.information + 1 }

def total (t : Tally) : Int := t.error + t.warning + t.information

/-- A count with its noun; nothing is said of a count of zero. -/
def counted? (n : Int) (singular plural : String) : Option (List String) :=
  if n = 0 then some []
  else (Text.decimal? n).map fun digits => [digits ++ " " ++ (if n = 1 then singular else plural)]

/-- The counts and their total, unless one of them has too many digits. -/
def summary? (t : Tally) : Option String := do
  let errors ← counted? t.error "error" "errors"
  let warnings ← counted? t.warning "warning" "warnings"
  let notes ← counted? t.information "info" "info"
  let parts := errors ++ warnings ++ notes
  if parts.isEmpty then some "no findings emitted"
  else (Text.decimal? t.total).map fun total => "; ".intercalate parts ++ " (" ++ total ++ " total)"

end Tally

end NullSafety
