import NullSafety.Json.Printer
import NullSafety.Report.Severity

/-!
Findings as a SARIF document: a rule for every kind of finding that occurs, described by the
first one, and a result for every finding. That a check found nothing leaves no trace.
-/

namespace NullSafety

namespace Sarif

structure Rule where
  id : String
  description : String
  deriving DecidableEq, Repr

structure Result where
  ruleId : String
  level : String
  message : String
  place : Place
  deriving DecidableEq, Repr

end Sarif

structure Sarif where
  /-- In the order of first use. -/
  rules : List Sarif.Rule := []
  results : List Sarif.Result := []
  deriving DecidableEq, Repr

namespace Sarif

def add (s : Sarif) (f : Finding) : Sarif :=
  match f.place? with
  | none => s
  | some place =>
    { rules :=
        if s.rules.any fun rule => rule.id = f.id then s.rules
        else s.rules ++ [⟨f.id, f.message⟩]
      results := s.results ++ [⟨f.id, (Severity.ofFinding f).sarifLevel, f.message, place⟩] }

def ofFindings (findings : List Finding) : Sarif := findings.foldl add {}

def text (s : String) : Json := .obj [("text", .str s)]

def Rule.toJson (r : Rule) : Json :=
  .obj [
    ("id", .str r.id),
    ("shortDescription", text r.description),
    ("relationships", .arr [.obj [
      ("target", .obj [
        ("id", .str (toString Finding.cwe)),
        ("guid", .str ""),
        ("toolComponent", .obj [("name", .str "CWE"), ("guid", .str "")])]),
      ("kinds", .arr [.str "superset"])]])]

/-- A result has a location if its file is known. -/
def Result.toJson (r : Result) : Json :=
  let locations : List (String × Json) :=
    if r.place.file = "" then []
    else
      [("locations", .arr [.obj [("physicalLocation", .obj [
        ("artifactLocation", .obj [("uri", .str r.place.file)]),
        ("region", .obj [("startLine", .int r.place.line)])])]])]
  .obj ([
    ("ruleId", .str r.ruleId),
    ("level", .str r.level),
    ("message", text r.message),
    ("properties", .obj [("cwe", .int Finding.cwe), ("statement", .str r.place.text)])] ++
    locations)

def schema : String :=
  "https://raw.githubusercontent.com/oasis-tcs/sarif-spec/master/" ++
    "Schemata/sarif-schema-2.1.0.json"

def toJson (s : Sarif) (toolName toolVersion : String) : Json :=
  .obj [
    ("$schema", .str schema),
    ("version", .str "2.1.0"),
    ("runs", .arr [.obj [
      ("tool", .obj [("driver", .obj [
        ("name", .str toolName),
        ("version", .str toolVersion),
        ("rules", .arr (s.rules.map Rule.toJson))])]),
      ("results", .arr (s.results.map Result.toJson))]])]

def render? (s : Sarif) (toolName toolVersion : String) : Option String :=
  (s.toJson toolName toolVersion).indented?

end Sarif

end NullSafety
