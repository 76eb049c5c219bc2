/-!
# Hexadecimal digits
-/

namespace MemoHints.Text

/-- The value of a digit of either case. -/
def hexValue? (c : Char) : Option Nat :=
  if '0' ≤ c ∧ c ≤ '9' then some (c.toNat - 48)
  else if 'a' ≤ c ∧ c ≤ 'f' then some (c.toNat - 87)
  else if 'A' ≤ c ∧ c ≤ 'F' then some (c.toNat - 55)
  else none

/-- The lowest digit of a number, in lower case. -/
def hexDigit (n : Nat) : Char := Nat.digitChar (n % 16)

/-- The lowest digit of a number, in upper case. -/
def hexDigitUpper (n : Nat) : Char := (hexDigit n).toUpper

end MemoHints.Text
