import MemoHints.Text.Hex

/-!
# Percent-encoding

Bytes that a text may not hold as they are stand as a percent sign and two digits in upper case.
-/

namespace MemoHints.Percent

/-- A byte after its percent sign. -/
def byte (b : UInt8) : List Char :=
  ['%', Text.hexDigitUpper (b.toNat / 16), Text.hexDigitUpper b.toNat]

/-- Letters, digits and four marks, which never need encoding. -/
def isUnreserved (b : UInt8) : Bool :=
  let n := b.toNat
  (0x30 ≤ n && n ≤ 0x39) || (0x41 ≤ n && n ≤ 0x5A) || (0x61 ≤ n && n ≤ 0x7A) ||
    n == 0x2D || n == 0x2E || n == 0x5F || n == 0x7E

/-- Encodes all bytes that are not unreserved. -/
def encodeBytes (bytes : List UInt8) : List Char :=
  bytes.flatMap fun b => if isUnreserved b then [Char.ofNat b.toNat] else byte b

/-- Encodes controls, everything outside ASCII, and the characters of `marks`. -/
def encodeChar (marks : List Char) (c : Char) : List Char :=
  if c.toNat < 0x20 ∨ 0x7F ≤ c.toNat ∨ c ∈ marks then
    (String.utf8EncodeChar c).flatMap byte
  else [c]

def encode (marks : List Char) (cs : List Char) : List Char := cs.flatMap (encodeChar marks)

/-- The bytes behind a text; a percent sign without two digits stands for itself. -/
def decode : List Char → List UInt8
  | '%' :: a :: b :: rest =>
    match Text.hexValue? a, Text.hexValue? b with
    | some x, some y => (x * 16 + y).toUInt8 :: decode rest
    | _, _ => 0x25 :: decode (a :: b :: rest)
  | c :: rest => String.utf8EncodeChar c ++ decode rest
  | [] => []

end MemoHints.Percent
