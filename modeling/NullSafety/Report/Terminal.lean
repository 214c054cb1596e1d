import NullSafety.Report.Line

/-!
Findings for a person at a terminal, in colour, or as plain lines.
-/

namespace NullSafety

namespace Terminal

inductive Rendition where
  | bold | dark | underline
  deriving DecidableEq, Repr

def Rendition.code : Rendition → Nat
  | .bold => 1
  | .dark => 2
  | .underline => 4

def colourCode : Colour → Nat
  | .red => 31
  | .green => 32
  | .yellow => 33
  | .blue => 34
  | .cyan => 36
  | .white => 97

/-- The control sequence that switches a rendition on. -/
def control (code : Nat) : String := "\x1b[" ++ toString code ++ "m"

/-- Text in a rendition, which ends with it. -/
def styled (text : String) (colour : Option Colour) (rendition : Rendition) : String :=
  control rendition.code ++
    (match colour with
      | none => ""
      | some colour => control (colourCode colour)) ++
    text ++ control 0

def bold (text : String) (colour : Colour) : String := styled text (some colour) .bold

/-- A finding as a plain line, and a line for its function. -/
def plain? (f : Finding) (function : Option String) : Option String :=
  let note :=
    match function, f.isClean with
    | some name, false => "  note: in function '" ++ name ++ "'\n"
    | _, _ => ""
  f.reportLine?.map fun line => line ++ "\n" ++ note

/-- The line that ends a report. -/
def summaryLine? (inColour : Bool) (tally : Tally) : Option String :=
  tally.summary?.map fun summary =>
    if inColour then
      let colour : Colour :=
        if tally.error ≠ 0 then .red else if tally.total ≠ 0 then .yellow else .green
      bold ("  ╰─ " ++ summary) colour ++ "\n"
    else "  " ++ summary ++ "\n"

end Terminal

end NullSafety
