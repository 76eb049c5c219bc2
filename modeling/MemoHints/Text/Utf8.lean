/-!
# UTF-8

Bytes and characters. Reading takes one byte at a time and marks each longest broken part of the
bytes by one missing character, so that a strict reader refuses it and a lossy one puts the
replacement character in its place.
-/

namespace MemoHints.Text.Utf8

/-- A character whose first bytes were read: its code so far, how many bytes it still lacks, and the
least and the greatest next byte. -/
structure Pending where
  code : Nat
  owed : Nat
  low : Nat
  high : Nat

/-- What a first byte says: a character or a broken part by itself, or the start of a longer one. -/
def first (b : Nat) : Option Char ⊕ Pending :=
  if b < 0x80 then .inl (some (Char.ofNat b))
  else if b < 0xC2 then .inl none
  else if b < 0xE0 then .inr ⟨b - 0xC0, 1, 0x80, 0xBF⟩
  else if b < 0xF0 then
    .inr ⟨b - 0xE0, 2, if b = 0xE0 then 0xA0 else 0x80, if b = 0xED then 0x9F else 0xBF⟩
  else if b < 0xF5 then
    .inr ⟨b - 0xF0, 3, if b = 0xF0 then 0x90 else 0x80, if b = 0xF4 then 0x8F else 0xBF⟩
  else .inl none

/-- Characters of the bytes that follow a started character. -/
def decodeFrom : Option Pending → List UInt8 → List (Option Char)
  | none, [] => []
  | some _, [] => [none]
  | none, b :: rest =>
    match first b.toNat with
    | .inl c => c :: decodeFrom none rest
    | .inr p => decodeFrom (some p) rest
  | some p, b :: rest =>
    if p.low ≤ b.toNat ∧ b.toNat ≤ p.high then
      let code := p.code * 64 + (b.toNat - 0x80)
      if p.owed = 1 then some (Char.ofNat code) :: decodeFrom none rest
      else decodeFrom (some ⟨code, p.owed - 1, 0x80, 0xBF⟩) rest
    else
      none :: match first b.toNat with
        | .inl c => c :: decodeFrom none rest
        | .inr p => decodeFrom (some p) rest

/-- The characters of the bytes, with `none` for each broken part. -/
def decode (bytes : List UInt8) : List (Option Char) := decodeFrom none bytes

/-- The text, if no part of it is broken. -/
def decode? (bytes : List UInt8) : Option String :=
  ((decode bytes).mapM id).map String.ofList

/-- The text, with the replacement character for each broken part. -/
def decodeLossy (bytes : List UInt8) : String :=
  String.ofList ((decode bytes).map (·.getD '\ufffd'))

/-- The bytes of a text. -/
def encode (s : String) : List UInt8 := s.toList.flatMap String.utf8EncodeChar

end MemoHints.Text.Utf8
