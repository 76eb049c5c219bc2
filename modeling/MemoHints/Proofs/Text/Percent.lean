import MemoHints.Text.Percent

/-!
# Percent-encoding and back

Encoded bytes are decoded to the same bytes.  Of the characters that mean something to whoever the
text is handed on to, only the percent sign is left in it.
-/

namespace MemoHints

theorem Text.hexDigitUpper_cases (n : Nat) :
    hexValue? (hexDigitUpper n) = some (n % 16) ∧ (hexDigitUpper n).isAlphanum = true := by
  have small : ∀ a : Fin 16, hexValue? (Nat.digitChar a).toUpper = some a.val ∧
      (Nat.digitChar a).toUpper.isAlphanum = true := by decide
  exact small ⟨n % 16, Nat.mod_lt n (by decide)⟩

namespace Percent

/-- The characters of encoded texts. -/
def IsEncodedChar (c : Char) : Prop := c.isAlphanum = true ∨ c ∈ ['-', '.', '_', '~', '%']

/-- An unreserved byte is a character, and that is not the percent sign. -/
theorem isUnreserved_cases {b : UInt8} (h : isUnreserved b = true) :
    IsEncodedChar (Char.ofNat b.toNat) ∧ Char.ofNat b.toNat ≠ '%' ∧
      String.utf8EncodeChar (Char.ofNat b.toNat) = [b] := by
  have small : ∀ n : Fin 128, isUnreserved (.ofNat n) = true →
      ((Char.ofNat n).isAlphanum = true ∨ Char.ofNat n ∈ ['-', '.', '_', '~', '%']) ∧
        Char.ofNat n ≠ '%' ∧ String.utf8EncodeChar (Char.ofNat n) = [.ofNat n] := by
    decide +kernel
  have hlt : b.toNat < 128 := by
    unfold isUnreserved at h
    simp only [Bool.or_eq_true, Bool.and_eq_true, decide_eq_true_eq, beq_iff_eq] at h
    omega
  have hb : UInt8.ofNat b.toNat = b := UInt8.ofNat_toNat
  have hsmall := small ⟨b.toNat, hlt⟩
  rw [hb] at hsmall
  exact hsmall h

theorem isEncodedChar_of_mem {bytes : List UInt8} {c : Char} (h : c ∈ encodeBytes bytes) :
    IsEncodedChar c := by
  obtain ⟨b, -, hc⟩ := List.mem_flatMap.mp h
  split at hc
  next hb =>
    obtain rfl := List.mem_singleton.mp hc
    exact (isUnreserved_cases hb).1
  next =>
    simp only [byte, List.mem_cons, List.not_mem_nil, or_false] at hc
    rcases hc with rfl | rfl | rfl
    · exact .inr (by decide)
    · exact .inl (Text.hexDigitUpper_cases _).2
    · exact .inl (Text.hexDigitUpper_cases _).2

theorem decode_cons {c : Char} (h : c ≠ '%') (rest : List Char) :
    decode (c :: rest) = String.utf8EncodeChar c ++ decode rest := by
  rw [decode.eq_def]
  split
  next heq => exact absurd (List.cons.inj heq).1 h
  next heq =>
    obtain ⟨rfl, rfl⟩ := List.cons.inj heq
    rfl
  next heq => cases heq

theorem decode_byte (b : UInt8) (rest : List Char) :
    decode (byte b ++ rest) = b :: decode rest := by
  have hhigh := (Text.hexDigitUpper_cases (b.toNat / 16)).1
  have hlow := (Text.hexDigitUpper_cases b.toNat).1
  have hlt := b.toNat_lt
  have hvalue : b.toNat / 16 % 16 * 16 + b.toNat % 16 = b.toNat := by omega
  simp [byte, decode, hhigh, hlow, hvalue]

/-- **Encoded bytes are decoded to the same bytes.** -/
theorem decode_encodeBytes (bytes : List UInt8) : decode (encodeBytes bytes) = bytes := by
  unfold encodeBytes
  induction bytes with
  | nil => rfl
  | cons b bytes ih =>
    rw [List.flatMap_cons]
    split
    next hb =>
      obtain ⟨-, hne, hutf8⟩ := isUnreserved_cases hb
      rw [List.singleton_append, decode_cons hne, hutf8, ih, List.singleton_append]
    next => rw [decode_byte, ih]

end Percent

end MemoHints
