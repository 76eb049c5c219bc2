import MemoHints.Json.Basic
import MemoHints.Text.Hex

/-!
# JSON text

Two layouts of a value: compact, without any white space, and indented by two spaces. Text outside
ASCII is written as it is; quotes, backslashes and controls are escaped.
-/

namespace MemoHints.Json

/-- One character between quotes. -/
def escapeChar (c : Char) : List Char :=
  match c with
  | '"' => ['\\', '"']
  | '\\' => ['\\', '\\']
  | '\n' => ['\\', 'n']
  | '\r' => ['\\', 'r']
  | '\t' => ['\\', 't']
  | '\x08' => ['\\', 'b']
  | '\x0c' => ['\\', 'f']
  | c =>
    if c.toNat < 0x20 then
      ['\\', 'u', '0', '0', Text.hexDigit (c.toNat / 16), Text.hexDigit c.toNat]
    else [c]

/-- A string and then `tail`. -/
def writeString (s : String) (tail : List Char) : List Char :=
  '"' :: (s.toList.foldr (fun c rest => escapeChar c ++ rest) ('"' :: tail))

/-- An integer in decimal. -/
def writeInt (n : Int) : List Char :=
  if n < 0 then '-' :: Binary64.decimalDigits n.natAbs else Binary64.decimalDigits n.natAbs

/-- A value that holds no others, and then `tail`. -/
def writeAtom (v : Json) (tail : List Char) : List Char :=
  match v with
  | .null => 'n' :: 'u' :: 'l' :: 'l' :: tail
  | .bool true => 't' :: 'r' :: 'u' :: 'e' :: tail
  | .bool false => 'f' :: 'a' :: 'l' :: 's' :: 'e' :: tail
  | .int n => writeInt n ++ tail
  | .float x => x.text.toList ++ tail
  | .str s => writeString s tail
  | .arr _ | .obj _ => tail

/-- The value without white space, and then `tail`. -/
def write : Json → List Char → List Char
  | .arr [], tail => '[' :: ']' :: tail
  | .arr (v :: rest), tail => '[' :: write v (writeItems rest tail)
  | .obj [], tail => '\x7b' :: '\x7d' :: tail
  | .obj ((k, v) :: rest), tail =>
    '\x7b' :: writeString k (':' :: write v (writeMembers rest tail))
  | v, tail => writeAtom v tail
where
  writeItems : List Json → List Char → List Char
    | [], tail => ']' :: tail
    | v :: rest, tail => ',' :: write v (writeItems rest tail)
  writeMembers : List (String × Json) → List Char → List Char
    | [], tail => '\x7d' :: tail
    | (k, v) :: rest, tail =>
      ',' :: writeString k (':' :: write v (writeMembers rest tail))

/-- The value as text without white space. -/
def compact (v : Json) : String := String.ofList (write v [])

/-- A new line with the indentation of a depth, and then `tail`. -/
def newline (depth : Nat) (tail : List Char) : List Char :=
  '\n' :: (List.replicate (2 * depth) ' ' ++ tail)

/-- The value with one line for each item, and then `tail`. -/
def writeIndented : Nat → Json → List Char → List Char
  | _, .arr [], tail => '[' :: ']' :: tail
  | depth, .arr (v :: rest), tail =>
    '[' :: newline (depth + 1) (writeIndented (depth + 1) v (indentedItems depth rest tail))
  | _, .obj [], tail => '\x7b' :: '\x7d' :: tail
  | depth, .obj ((k, v) :: rest), tail =>
    '\x7b' :: newline (depth + 1) (writeString k (':' :: ' ' ::
      writeIndented (depth + 1) v (indentedMembers depth rest tail)))
  | _, v, tail => writeAtom v tail
where
  indentedItems : Nat → List Json → List Char → List Char
    | depth, [], tail => newline depth (']' :: tail)
    | depth, v :: rest, tail =>
      ',' :: newline (depth + 1) (writeIndented (depth + 1) v (indentedItems depth rest tail))
  indentedMembers : Nat → List (String × Json) → List Char → List Char
    | depth, [], tail => newline depth ('\x7d' :: tail)
    | depth, (k, v) :: rest, tail =>
      ',' :: newline (depth + 1) (writeString k (':' :: ' ' ::
        writeIndented (depth + 1) v (indentedMembers depth rest tail)))

/-- The value as indented text. -/
def pretty (v : Json) : String := String.ofList (writeIndented 0 v [])

end MemoHints.Json
