import NullSafety.Json.Printer
import NullSafety.Report.Severity

/-!
One line per finding: for people to read, and as a JSON object.
-/

namespace NullSafety

namespace Finding

/-- File, line, severity, message and kind of a finding, unless its line has too many digits. -/
def reportLine? (f : Finding) : Option String :=
  match f.place? with
  | none => some f.message
  | some place =>
    (Text.decimal? place.line).map fun line =>
      "[" ++ place.file ++ ":" ++ line ++ "]: (" ++ (Severity.ofFinding f).word ++ ") " ++
        f.message ++ " [" ++ f.id ++ "]"

/-- A variable that may not be known. -/
def nameJson : Option String → Json
  | none => .null
  | some name => .str name

/-- The members that describe the statement. -/
def placeMembers (name : Option String) (place : Place) : List (String × Json) :=
  [("statement", .str place.text), ("variable", nameJson name), ("node_id", .int place.node),
   ("file", .str place.file), ("line", .int place.line), ("cwe", .int cwe)]

/-- A finding, in the function given, as the members of an object. -/
def members (f : Finding) (function : Option String) : List (String × Json) :=
  [("error_id", .str f.id), ("severity", .str (Severity.ofFinding f).word),
   ("message", .str f.message)] ++
  (match function with
    | none => []
    | some name => [("function", .str name)]) ++
  match f with
  | .clean => []
  | .dereference name nullability place =>
    placeMembers name place ++ [("nullability", .str nullability.name)]
  | .nullReturn name place => placeMembers name place

/-- The object on one line, its members in the order of their keys. -/
def jsonLine? (function : Option String) (f : Finding) : Option String :=
  (Json.obj (Json.sortMembers (f.members function))).compact?

end Finding

/-- One JSON object per line, if each of them can be written. -/
def jsonLines? (findings : List Finding) (function : Option String) : Option String :=
  (findings.mapM (Finding.jsonLine? function)).map "\n".intercalate

end NullSafety
