/-!
Code points in hexadecimal, at a fixed width, with lower-case digits.
-/

namespace NullSafety.Text

def hexDigit (value : Nat) : Char := "0123456789abcdef".toList.getD (value % 16) '0'

/-- The last `width` hexadecimal digits of a number. -/
def hexDigits : (width : Nat) → (value : Nat) → List Char
  | 0, _ => []
  | width + 1, value => hexDigits width (value / 16) ++ [hexDigit value]

theorem length_hexDigits (width value : Nat) : (hexDigits width value).length = width := by
  induction width generalizing value with
  | zero => rfl
  | succ width ih => simp [hexDigits, ih]

end NullSafety.Text
