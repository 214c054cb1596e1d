import NullSafety.Text.Hex
import NullSafety.Text.Printable

/-!
A text as a quoted literal, the way messages show it: every character that would not show itself
is written as an escape, so the literal stays on one line and says exactly what the text holds.
-/

namespace NullSafety.Text

/-- Single quotes, unless the text holds a single quote and no double quote. -/
def quoteFor (cs : List Char) : Char :=
  if '\'' ∈ cs ∧ '"' ∉ cs then '"' else '\''

/-- How one character is written between quotes of the given kind. -/
def escapeIn (quote : Char) (c : Char) : List Char :=
  if c = quote ∨ c = '\\' then ['\\', c]
  else if c = '\n' then ['\\', 'n']
  else if c = '\r' then ['\\', 'r']
  else if c = '\t' then ['\\', 't']
  else if isPrintable c then [c]
  else if c.toNat < 0x100 then '\\' :: 'x' :: hexDigits 2 c.toNat
  else if c.toNat < 0x10000 then '\\' :: 'u' :: hexDigits 4 c.toNat
  else '\\' :: 'U' :: hexDigits 8 c.toNat

def quotedList (cs : List Char) : List Char :=
  let quote := quoteFor cs
  quote :: cs.flatMap (escapeIn quote) ++ [quote]

def quoted (s : String) : String := String.ofList (quotedList s.toList)

/-- The quotes give way to a single quote in the text, but not to both kinds. -/
example : quotedList "it's".toList = "\"it's\"".toList := by decide +kernel

example : quotedList "'\"".toList = "'\\'\"'".toList := by decide +kernel

/-- Escapes by name, by two, four and eight digits. -/
example : quotedList ("\n\x07\u2028".toList ++ [Char.ofNat 0xe0001]) =
    "'\\n\\x07\\u2028\\U000e0001'".toList := by decide +kernel

end NullSafety.Text
