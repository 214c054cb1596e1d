import NullSafety.Log
import NullSafety.Options
import NullSafety.Report.Folder
import NullSafety.Report.Html
import NullSafety.Report.Sarif
import NullSafety.Report.Terminal

/-!
A report that grows as findings come in. It counts them, writes each to a stream at once, and
keeps what the files need that are written at the end.
-/

namespace NullSafety

/-- The version of the tool, where none is given. -/
def defaultVersion : String := "0.1.0"

/-- The name of the tool, where none is given. -/
def defaultToolName : String := "nullflow"

/-- A text, unless it is missing or empty. -/
def given (text : Option String) (otherwise : String) : String :=
  match text with
  | none => otherwise
  | some s => if s = "" then otherwise else s

/-- Why a report cannot be written. -/
inductive ReportError where
  | file (e : FileError)
  /-- What was given for a path holds a null character. -/
  | notAPath
  | malformedTemplate
  /-- A number has too many digits to be written. -/
  | tooManyDigits
  deriving DecidableEq, Repr

namespace ReportError

def pathname (path : String) : Except ReportError Pathname :=
  match Pathname.ofString? path with
  | some p => .ok p
  | none => .error .notAPath

/-- A text that may not have been possible to write. -/
def printed (text : Option String) : Except ReportError String :=
  match text with
  | some t => .ok t
  | none => .error .tooManyDigits

def ofFolder {α : Type} (r : Except FileError α) : Except ReportError α := r.mapError .file

end ReportError

namespace Html

/-- The page of the template in a file. -/
def fromFile (folder : Folder) (p : Pathname) (cards : List Card) : Except ReportError String := do
  let template ← ReportError.ofFolder (folder.read p)
  match fromTemplate? template cards with
  | some page => .ok page
  | none => .error .malformedTemplate

/-- The page of the template at a path, or else of the one the environment names, if it is there,
or else the page without a template. -/
def render (env : Environment) (folder : Folder) (template : Option String)
    (cards : List Card) : Except ReportError String :=
  let path := given template ""
  let preset := given (env.lookup "NULLFLOW_HTML_TEMPLATE") ""
  if path ≠ "" then do fromFile folder (← ReportError.pathname path) cards
  else
    match if preset = "" then none else Pathname.ofString? preset with
    | none => ReportError.printed (page? cards)
    | some p => do
      if ← ReportError.ofFolder (folder.hasFile p) then fromFile folder p cards
      else ReportError.printed (page? cards)

end Html

structure Report where
  inColour : Bool := false
  toolName : String := defaultToolName
  toolVersion : String := defaultVersion
  /-- Where the files go; no file is written to the empty path. -/
  sarifPath : String := ""
  htmlPath : String := ""
  env : Environment := []
  tally : Tally := {}
  findings : List Finding := []
  /-- Kept only if a SARIF file is to be written. -/
  sarif : Option Sarif := none
  /-- Kept only if a page is to be written. -/
  cards : Option (List Html.Card) := none

namespace Report

/-- A report to a stream. Paths that are not given come from the environment. -/
def new (inColour : Bool) (toolName : String) (toolVersion sarifPath htmlPath : Option String)
    (env : Environment) : Report :=
  let sarifPath := given sarifPath ((env.lookup "NULLFLOW_REPORT_SARIF").getD "")
  let htmlPath := given htmlPath ((env.lookup "NULLFLOW_REPORT_HTML").getD "")
  { inColour, toolName, toolVersion := given toolVersion defaultVersion, sarifPath, htmlPath, env
    sarif := if sarifPath = "" then none else some {}
    cards := if htmlPath = "" then none else some [] }

/-- Takes in one finding. That a check found nothing is not counted. -/
def accept (r : Report) (function : Option String) (f : Finding) : Report :=
  { r with
    tally := if f.isClean then r.tally else r.tally.record (Severity.ofFinding f)
    findings := r.findings ++ [f]
    sarif := r.sarif.map fun s => s.add f
    cards := r.cards.map fun cards => cards ++ (Html.cardOf? function f).toList }

/-- Takes in findings, in the function given. -/
def report (r : Report) (findings : List Finding) (function : Option String) : Report :=
  findings.foldl (fun r f => r.accept function f) r

/-- What is written to the stream at the end. -/
def closing? (r : Report) : Option String := Terminal.summaryLine? r.inColour r.tally

def failedWrite (what path : String) (e : FileError) : LogRecord :=
  ⟨.error, .report, "failed to write " ++ what ++ " to " ++ path ++ ": " ++ e.message⟩

/-- Writes one file. A failure of the folder is mentioned and changes nothing; any other ends the
report. -/
def writeFile (folder : Folder) (what path : String) (content : Except ReportError String) :
    Except ReportError (Folder × List LogRecord) :=
  let written : Except ReportError Folder := do
    let text ← content
    ReportError.ofFolder (folder.write (← ReportError.pathname path) text)
  match written with
  | .ok folder => .ok (folder, [])
  | .error (.file e) => .ok (folder, [failedWrite what path e])
  | .error e => .error e

def sarifText? (r : Report) (s : Sarif) : Option String := s.render? r.toolName r.toolVersion

/-- Writes the files that are due at the end. -/
def finish (r : Report) (folder : Folder) : Except ReportError (Folder × List LogRecord) := do
  let (folder, sarifRecords) ←
    match r.sarif with
    | none => .ok (folder, [])
    | some s => writeFile folder "SARIF" r.sarifPath (ReportError.printed (r.sarifText? s))
  let (folder, htmlRecords) ←
    match r.cards with
    | none => .ok (folder, [])
    | some cards =>
      writeFile folder "HTML" r.htmlPath (Html.render r.env folder none cards)
  .ok (folder, sarifRecords ++ htmlRecords)

end Report

end NullSafety
