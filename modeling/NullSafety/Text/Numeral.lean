import NullSafety.Text.Blank
import NullSafety.Text.Digit

/-!
Integers as numerals. A numeral has a limited number of digits, whether it is written or read. A
source gives an integer as a number, or as text that has yet to be read.
-/

namespace NullSafety

namespace Text

/-- The most digits a numeral may have. -/
def maxDigits : Nat := 4300

/-- Whether an integer can be written as a numeral. -/
def isWritable (n : Int) : Bool := n.natAbs < Nat.pow 10 maxDigits

/-- An integer as a numeral, unless it has too many digits. -/
def decimal? (n : Int) : Option String := if isWritable n then some (toString n) else none

theorem isSome_decimal? (n : Int) : (decimal? n).isSome = isWritable n := by
  unfold decimal?
  cases isWritable n <;> rfl

theorem eq_toString_of_decimal? {n : Int} {text : String} (h : decimal? n = some text) :
    text = toString n := by
  unfold decimal? at h
  split at h
  · exact (Option.some.inj h).symm
  · cases h

/-- Blanks allowed around a numeral: all of them but the four information separators. -/
def isNumeralBlank (c : Char) : Bool := isBlank c && !(0x1c ≤ c.toNat && c.toNat ≤ 0x1f)

/-- The digits of a numeral, most significant first. Single underscores may stand between two
digits. `afterDigit` says whether the character just read was a digit. -/
def digitRun? (afterDigit : Bool) : List Char → Option (List Nat)
  | [] => if afterDigit then some [] else none
  | c :: cs =>
    match digitValue? c with
    | some d => (digitRun? true cs).map (d :: ·)
    | none => if c = '_' ∧ afterDigit then digitRun? false cs else none

/-- The value of a run of digits without a sign. -/
def natural? (cs : List Char) : Option Nat :=
  match digitRun? false cs with
  | some ds => if ds.length ≤ maxDigits then some (ds.foldl (fun n d => 10 * n + d) 0) else none
  | none => none

/-- Reads a decimal integer: blanks around it, a sign in front of it, and digits of any script. -/
def integer? (s : String) : Option Int :=
  match trimList isNumeralBlank s.toList with
  | '+' :: cs => (natural? cs).map Int.ofNat
  | '-' :: cs => (natural? cs).map fun n => -Int.ofNat n
  | cs => (natural? cs).map Int.ofNat

/-- Blanks and a sign around the digits, and single underscores between them. -/
example : integer? " +1_0 " = some 10 := by decide +kernel

example : integer? "1__0" = none ∧ integer? "_1" = none ∧ integer? "" = none := by
  decide +kernel

end Text

/-- An integer as it was given. -/
inductive Numeral where
  | number (value : Int)
  | text (digits : String)
  deriving DecidableEq, Repr

/-- Zero and the empty text stand for a numeral that was not given. -/
def Numeral.isMissing : Numeral → Bool
  | .number value => value = 0
  | .text digits => digits = ""

/-- The integer meant, unless the text cannot be read as one. -/
def Numeral.value? : Numeral → Option Int
  | .number value => some value
  | .text digits => Text.integer? digits

end NullSafety
