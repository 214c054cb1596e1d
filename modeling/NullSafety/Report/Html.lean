import NullSafety.Report.Severity
import NullSafety.Report.Template

/-!
Findings as an HTML page. Whatever comes from the source is escaped where it is inserted. In
place of the page a template may be given.
-/

namespace NullSafety

namespace Html

/-- The characters with a meaning in markup are written as entities. -/
def escapeChar (c : Char) : List Char :=
  if c = '&' then "&amp;".toList
  else if c = '<' then "&lt;".toList
  else if c = '>' then "&gt;".toList
  else if c = '\'' then "&#39;".toList
  else if c = '"' then "&#34;".toList
  else [c]

def escape (s : String) : String := String.ofList (s.toList.flatMap escapeChar)

/-- A finding on the page. -/
structure Card where
  severity : Severity
  id : String
  message : String
  function : Option String
  place : Place
  deriving DecidableEq, Repr

/-- That a check found nothing gets no card. -/
def cardOf? (function : Option String) (f : Finding) : Option Card :=
  f.place?.map fun place => ⟨.ofFinding f, f.id, f.message, function, place⟩

/-- A span with a place in it, if there is one. -/
def location (shown : String) : String :=
  if shown = "" then "" else "<span class=\"loc\">" ++ escape shown ++ "</span>"

/-- Only behind a file is the line shown, and then it must not have too many digits. -/
def Card.fileAndLine? (c : Card) : Option String :=
  if c.place.file = "" then some ""
  else (Text.decimal? c.place.line).map fun line => c.place.file ++ ":" ++ line

def Card.inFunction (c : Card) : String :=
  match c.function with
  | none => ""
  | some name => if name = "" then "" else "in " ++ name

/-- The card with its file and line as they are shown. -/
def Card.markup (c : Card) (fileAndLine : String) : String :=
  "\n  <div class=\"card sev-" ++ escape c.severity.word ++ "\">\n" ++
  "    <strong>" ++ escape c.severity.word ++ "</strong> <code>[" ++ escape c.id ++ "]</code>\n" ++
  "    " ++ location fileAndLine ++ "\n" ++
  "    " ++ location c.inFunction ++ "\n" ++
  "    <div>" ++ escape c.message ++ "</div>\n" ++
  "    <div class=\"stmt\"><code>" ++ escape c.place.text ++ "</code></div>\n" ++
  "    <div class=\"cwe\">CWE-" ++ toString Finding.cwe ++ "</div>\n" ++
  "  </div>\n  "

def Card.render? (c : Card) : Option String := c.fileAndLine?.map c.markup

def header : String :=
  "<!DOCTYPE html>\n" ++
  "<html lang=\"en\">\n" ++
  "<head>\n" ++
  "  <meta charset=\"utf-8\">\n" ++
  "  <title>nullflow report</title>\n" ++
  "  <style>\n" ++
  "    body \x7b font-family: monospace; background: #1e1e2e; color: #cdd6f4; padding: 2rem; \x7d\n" ++
  "    .card \x7b background: #313244; border-radius: 8px; padding: 1rem; margin-bottom: 1rem; \x7d\n" ++
  "    .sev-error   \x7b border-left: 4px solid #f38ba8; \x7d\n" ++
  "    .sev-warning \x7b border-left: 4px solid #f9e2af; \x7d\n" ++
  "    .loc \x7b color: #89b4fa; \x7d\n" ++
  "    .stmt \x7b margin-top: 0.4rem; color: #a6adc8; \x7d\n" ++
  "    .cwe \x7b color: #cba6f7; margin-top: 0.3rem; \x7d\n" ++
  "    .summary \x7b margin-top: 2rem; text-align: center; \x7d\n" ++
  "  </style>\n" ++
  "</head>\n" ++
  "<body>\n" ++
  "  <h1>Null pointer dereference report</h1>\n  "

/-- What stands on the page when there are no cards. -/
def cleanCard : String :=
  "\n  <div class=\"card\">" ++ escape Finding.cleanMessage ++ "</div>\n  "

def footer (total : Nat) : String :=
  "\n  <div class=\"summary\">" ++ toString total ++ " finding" ++
    (if total = 1 then "" else "s") ++ ".</div>\n</body>\n</html>"

/-- The page of cards, if each of them can be written. -/
def page? (cards : List Card) : Option String :=
  (cards.mapM Card.render?).map fun shown =>
    header ++ (if cards.isEmpty then cleanCard else String.join shown) ++ footer cards.length

/-- The page of the findings in a function. -/
def pageOf? (findings : List Finding) (function : Option String) : Option String :=
  page? (findings.filterMap (cardOf? function))

/-- The page of a template: the number of findings and the message for none can be inserted. -/
def fromTemplate? (template : String) (cards : List Card) : Option String :=
  (Template.parts? template).map (Template.fill
    [("total", toString cards.length), ("clean_message", escape Finding.cleanMessage)])

end Html

end NullSafety
