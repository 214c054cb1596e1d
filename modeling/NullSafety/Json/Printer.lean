import NullSafety.Json.Basic
import NullSafety.Text.Hex
import NullSafety.Text.Numeral

/-!
JSON as text, in ASCII only. Other characters are written by their code, those beyond the first
plane as a pair of surrogates. Objects and arrays stand on one line, or are laid out over
several. A number with too many digits cannot be written, and nor can a value with one in it.
-/

namespace NullSafety

namespace Json

def unitEscape (unit : Nat) : List Char := '\\' :: 'u' :: Text.hexDigits 4 unit

/-- How one character is written inside a string. -/
def escapeChar (c : Char) : List Char :=
  if c = '"' then ['\\', '"']
  else if c = '\\' then ['\\', '\\']
  else if c = '\n' then ['\\', 'n']
  else if c = '\r' then ['\\', 'r']
  else if c = '\t' then ['\\', 't']
  else if c.toNat = 0x8 then ['\\', 'b']
  else if c.toNat = 0xc then ['\\', 'f']
  else if 0x20 ≤ c.toNat ∧ c.toNat ≤ 0x7e then [c]
  else if c.toNat < 0x10000 then unitEscape c.toNat
  else
    let offset := c.toNat - 0x10000
    unitEscape (0xd800 + offset / 0x400) ++ unitEscape (0xdc00 + offset % 0x400)

def quoteString (s : String) : String :=
  String.ofList ('"' :: s.toList.flatMap escapeChar ++ ['"'])

/-- How texts stand between two brackets that begin on a line of the given depth. -/
abbrev Layout := (opening closing : String) → (depth : Nat) → (items : List String) → String

/-- All on one line: a space after every comma. -/
def oneLine : Layout := fun opening closing _ items =>
  opening ++ ", ".intercalate items ++ closing

/-- A line break, and the blanks a line of the given depth begins with. -/
def lineBreak (depth : Nat) : String := "\n" ++ String.ofList (List.replicate (2 * depth) ' ')

/-- Each on a line of its own, two blanks deeper than the brackets; nothing between the brackets
if there are none. -/
def ownLines : Layout := fun opening closing depth items =>
  if items.isEmpty then opening ++ closing
  else
    opening ++ lineBreak (depth + 1) ++ ("," ++ lineBreak (depth + 1)).intercalate items ++
      lineBreak depth ++ closing

mutual

/-- A value as text, with a space after every colon. There is no text if a number in the value has
too many digits. -/
def print? (layout : Layout) (depth : Nat) : Json → Option String
  | .null => some "null"
  | .bool b => some (if b then "true" else "false")
  | .int n => Text.decimal? n
  | .str s => some (quoteString s)
  | .arr items => (printItems? layout (depth + 1) items).map (layout "[" "]" depth)
  | .obj members => (printMembers? layout (depth + 1) members).map (layout "\x7b" "\x7d" depth)

def printItems? (layout : Layout) (depth : Nat) : List Json → Option (List String)
  | [] => some []
  | item :: rest => do
    let text ← print? layout depth item
    let texts ← printItems? layout depth rest
    some (text :: texts)

def printMembers? (layout : Layout) (depth : Nat) :
    List (String × Json) → Option (List String)
  | [] => some []
  | (key, value) :: rest => do
    let text ← print? layout depth value
    let texts ← printMembers? layout depth rest
    some ((quoteString key ++ ": " ++ text) :: texts)

end

def compact? (v : Json) : Option String := v.print? oneLine 0

def indented? (v : Json) : Option String := v.print? ownLines 0

end Json

end NullSafety
