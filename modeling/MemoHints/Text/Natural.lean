import MemoHints.Numbers

/-!
# Natural numbers in text

A number in decimal, with or without a plus sign, that fits 64 bits.
-/

namespace MemoHints.Text

/-- The number that decimal digits make. -/
def digitsToNat (cs : List Char) : Nat := cs.foldl (fun n c => 10 * n + (c.toNat - 48)) 0

/-- The number in a text of digits, if there are any and nothing else. -/
def ofDigits? (cs : List Char) : Option Nat :=
  if !cs.isEmpty && cs.all Char.isDigit then
    let n := digitsToNat cs
    if n < 2 ^ 64 then some n else none
  else none

def natural? (s : String) : Option Nat :=
  match s.toList with
  | '+' :: rest => ofDigits? rest
  | cs => ofDigits? cs

end MemoHints.Text
