import NullSafety.Text.Ranges

/-!
Blank characters, and what is done with the blanks of a text: cut off at its ends, or removed
throughout.
-/

namespace NullSafety.Text

/-- The white space of Unicode: controls that move the cursor or separate information, and
spaces of every width. -/
def blankRanges : List (Nat × Nat) :=
  [(0x9, 0xd), (0x1c, 0x20), (0x85, 0x85), (0xa0, 0xa0), (0x1680, 0x1680), (0x2000, 0x200a),
   (0x2028, 0x2029), (0x202f, 0x202f), (0x205f, 0x205f), (0x3000, 0x3000)]

theorem increasing_blankRanges : increasing blankRanges = true := by decide

def isBlank (c : Char) : Bool := inRanges c.toNat blankRanges

theorem isBlank_of_isWhitespace {c : Char} (h : c.isWhitespace = true) : isBlank c = true := by
  simp only [Char.isWhitespace, Bool.or_eq_true, decide_eq_true_eq] at h
  rcases h with ((rfl | rfl) | rfl) | rfl <;> decide

/-- The text without any of its blanks. -/
def removeBlanks (s : String) : String :=
  String.ofList (s.toList.filter fun c => !isBlank c)

/-- Drops the characters of a class from both ends. -/
def trimList (drop : Char → Bool) (cs : List Char) : List Char :=
  ((cs.dropWhile drop).reverse.dropWhile drop).reverse

def trim (s : String) : String := String.ofList (trimList isBlank s.toList)

/-- The parts between the separators: one more than there are separators, some perhaps empty. -/
def fields (separator : Char) : List Char → List (List Char)
  | [] => [[]]
  | c :: cs =>
    if c = separator then [] :: fields separator cs
    else
      match fields separator cs with
      | [] => [[c]]
      | part :: parts => (c :: part) :: parts

end NullSafety.Text
