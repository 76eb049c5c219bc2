import MemoHints.Numbers

/-!
# UTF-16 units

Editors count columns in units of UTF-16.
-/

namespace MemoHints.Text

/-- Units of one character: two beyond the basic plane. -/
def unitsOf (c : Char) : Nat := if c.toNat < 0x10000 then 1 else 2

/-- Units of a text. -/
def units16 (cs : List Char) : Nat := (cs.map unitsOf).sum

end MemoHints.Text
