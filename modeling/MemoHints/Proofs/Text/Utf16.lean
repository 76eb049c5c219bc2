import MemoHints.Text.Units

/-!
# Units of UTF-16

A text in units of UTF-16, where a character beyond the basic plane is a pair of units.  An offset
that counts the units of whole characters never falls between the two of a pair (`not_insidePair`).
-/

namespace MemoHints.Text

/-- The units of one character. -/
def utf16Of (c : Char) : List Nat :=
  if c.toNat < 0x10000 then [c.toNat]
  else [0xD800 + (c.toNat - 0x10000) / 0x400, 0xDC00 + (c.toNat - 0x10000) % 0x400]

/-- The units of a text. -/
def utf16 (cs : List Char) : List Nat := cs.flatMap utf16Of

def IsHighHalf (unit : Nat) : Prop := 0xD800 ≤ unit ∧ unit < 0xDC00

def IsLowHalf (unit : Nat) : Prop := 0xDC00 ≤ unit ∧ unit < 0xE000

/-- An offset between the two halves of a pair. -/
def InsidePair (units : List Nat) (offset : Nat) : Prop :=
  ∃ front high low back, units = front ++ high :: low :: back ∧ offset = front.length + 1 ∧
    IsHighHalf high ∧ IsLowHalf low

theorem units16_append (front back : List Char) :
    units16 (front ++ back) = units16 front + units16 back := by
  rw [units16, List.map_append, List.sum_append_nat]
  rfl

theorem utf16_append (front back : List Char) : utf16 (front ++ back) = utf16 front ++ utf16 back :=
  List.flatMap_append

theorem length_utf16 (cs : List Char) : (utf16 cs).length = units16 cs := by
  rw [utf16, List.length_flatMap, units16]
  congr 1
  refine List.map_congr_left fun c _ => ?_
  unfold utf16Of unitsOf
  split <;> rfl

example : utf16 ['a', '👍'] = [0x61, 0xD83D, 0xDC4D] := by decide

theorem char_bounds (c : Char) : (c.toNat < 0xD800 ∨ 0xDFFF < c.toNat) ∧ c.toNat < 0x110000 := by
  have hvalid : c.toNat < 0xD800 ∨ 0xDFFF < c.toNat ∧ c.toNat < 0x110000 := c.valid
  omega

/-- A character does not start with the second half of a pair. -/
theorem not_isLowHalf_of_head {cs : List Char} {unit : Nat} {rest : List Nat}
    (h : utf16 cs = unit :: rest) : ¬ IsLowHalf unit := by
  cases cs with
  | nil => cases h
  | cons c cs =>
    have hbounds := char_bounds c
    rw [utf16, List.flatMap_cons, utf16Of] at h
    unfold IsLowHalf
    split at h
    next =>
      obtain rfl := (List.cons.inj h).1
      omega
    next =>
      obtain rfl := (List.cons.inj h).1
      omega

/-- **Whole characters end at no half.** -/
theorem not_insidePair (front back : List Char) :
    ¬ InsidePair (utf16 (front ++ back)) (units16 front) := by
  rintro ⟨before, high, low, after, hunits, hoffset, -, hlow⟩
  rw [utf16_append, List.append_cons before high] at hunits
  have hlength : (utf16 front).length = (before ++ [high]).length := by
    rw [length_utf16, hoffset, List.length_append, List.length_singleton]
  exact not_isLowHalf_of_head (List.append_inj hunits hlength).2 hlow

end MemoHints.Text
