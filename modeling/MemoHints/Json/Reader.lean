import MemoHints.Json.Basic
import MemoHints.Text.Hex
import MemoHints.Text.Utf8

/-!
# Reading JSON

A reader over characters in which a broken part of the bytes is a missing character. The caller says
which parts it wants: a part that it does not want is checked for its form only, so that broken
text, numbers too large for a double, and deep nesting pass there. Everything else is strict.
-/

namespace MemoHints.Json

/-- What a caller wants of a value. -/
inductive Interest where
  /-- All of it. -/
  | whole
  /-- The listed members of a record, which may also be given as the list of their values. -/
  | record (fields : List (String × Interest))
  /-- The same of each item of a list. -/
  | each (item : Interest)
  /-- Nothing but its form. -/
  | nothing

namespace Interest

/-- What is wanted of a member. -/
def ofMember (name : String) : Interest → Interest
  | .record fields => (fields.lookup name).getD .nothing
  | .nothing => .nothing
  | _ => .whole

/-- What is wanted of the item at a place. -/
def ofItem (index : Nat) : Interest → Interest
  | .record fields => ((fields[index]?).map (·.2)).getD .whole
  | .each item => item
  | .nothing => .nothing
  | .whole => .whole

/-- Whether any of the value is wanted. -/
def any : Interest → Bool
  | .nothing => false
  | _ => true

end Interest

/-- Characters still to read. -/
abbrev Input := List (Option Char)

def isSpace : Option Char → Bool
  | some ' ' | some '\n' | some '\r' | some '\t' => true
  | _ => false

def skipSpace (cs : Input) : Input := cs.dropWhile isSpace

/-- A piece of a string: a character as it stands, or a unit of UTF-16 by its number. -/
inductive Piece where
  | char (c : Option Char)
  | unit (n : Nat)

/-- The character that a letter after a backslash stands for. -/
def escaped? : Char → Option Char
  | '"' => some '"'
  | '\\' => some '\\'
  | '/' => some '/'
  | 'b' => some '\x08'
  | 'f' => some '\x0c'
  | 'n' => some '\n'
  | 'r' => some '\r'
  | 't' => some '\t'
  | _ => none

/-- The pieces up to the closing quote. -/
def pieces : Input → Option (List Piece × Input)
  | [] => none
  | some '"' :: rest => some ([], rest)
  | some '\\' :: some 'u' :: some a :: some b :: some c :: some d :: rest => do
    let n ← [a, b, c, d].foldlM (fun n digit => do return n * 16 + (← Text.hexValue? digit)) 0
    let (more, rest) ← pieces rest
    some (.unit n :: more, rest)
  | some '\\' :: some e :: rest => do
    let c ← escaped? e
    let (more, rest) ← pieces rest
    some (.char (some c) :: more, rest)
  | some '\\' :: _ => none
  | some c :: rest =>
    if c.toNat < 0x20 then none
    else do
      let (more, rest) ← pieces rest
      some (.char (some c) :: more, rest)
  | none :: rest => do
    let (more, rest) ← pieces rest
    some (.char none :: more, rest)

/-- The text of the pieces; none when a character is broken or a surrogate has no partner. -/
def joinPieces : List Piece → Option (List Char)
  | [] => some []
  | .char c :: rest => do some ((← c) :: (← joinPieces rest))
  | .unit n :: .unit m :: rest =>
    if 0xD800 ≤ n ∧ n < 0xDC00 then
      if 0xDC00 ≤ m ∧ m < 0xE000 then do
        some (Char.ofNat (0x10000 + (n - 0xD800) * 0x400 + (m - 0xDC00)) :: (← joinPieces rest))
      else none
    else if 0xDC00 ≤ n ∧ n < 0xE000 then none
    else do some (Char.ofNat n :: (← joinPieces (.unit m :: rest)))
  | .unit n :: rest =>
    if 0xD800 ≤ n ∧ n < 0xE000 then none
    else do some (Char.ofNat n :: (← joinPieces rest))

/-- A string after its opening quote. One that is not wanted has an empty text. -/
def string (wanted : Bool) (cs : Input) : Option (String × Input) := do
  let (found, rest) ← pieces cs
  if wanted then some (String.ofList (← joinPieces found), rest) else some ("", rest)

/-- The decimal digits at the front. -/
def digits : Input → List Nat × Input
  | some c :: rest =>
    if c.isDigit then
      let (more, rest) := digits rest
      ((c.toNat - 48) :: more, rest)
    else ([], some c :: rest)
  | cs => ([], cs)

/-- The largest integer that is not a float. -/
def maxInt : Nat := 2 ^ 64 - 1

/-- The significand that digits after it make, and the digits that no longer fit 64 bits. -/
def takeDigits (significand : Nat) : List Nat → Nat × List Nat
  | [] => (significand, [])
  | d :: rest =>
    if maxInt < significand * 10 + d then (significand, d :: rest)
    else takeDigits (significand * 10 + d) rest

/-- The exponent after a number, if one is written there. -/
def exponent? : Input → Option (Option Int × Input)
  | some e :: rest =>
    if e = 'e' ∨ e = 'E' then
      let (negative, rest) := match rest with
        | some '-' :: rest => (true, rest)
        | some '+' :: rest => (false, rest)
        | rest => (false, rest)
      match digits rest with
      | ([], _) => none
      | (ds, rest) =>
        let n : Nat := ds.foldl (fun n d => n * 10 + d) 0
        some (some (if negative then -(n : Int) else n), rest)
    else some (none, some e :: rest)
  | cs => some (none, cs)

/-- The digits after a point, if one is written there. -/
def fraction? : Input → Option (Option (List Nat) × Input)
  | some '.' :: rest =>
    match digits rest with
    | ([], _) => none
    | (ds, rest) => some (some ds, rest)
  | cs => some (none, cs)

/-- The number that its digits make. Digits of the whole part that do not fit raise the exponent;
digits of the fraction that do not fit are dropped. -/
def number? (negative : Bool) (whole : List Nat) (frac : Option (List Nat)) (exp : Option Int) :
    Option Json :=
  let (significand, dropped) := takeDigits 0 whole
  match dropped, frac, exp with
  | [], none, none =>
    if !negative then some (.int significand)
    else if significand = 0 ∨ 2 ^ 63 < significand then do
      some (.float ((← Binary64.ofRatio? significand 1).withSign true))
    else some (.int (-significand))
  | _, _, _ => do
    let ds := frac.getD []
    let (significand, rest) := takeDigits significand ds
    let e : Int := dropped.length - ((ds.length : Int) - rest.length) + exp.getD 0
    some (.float ((← Binary64.ofDecimal? significand e).withSign negative))

/-- A number after its sign. -/
def number (wanted negative : Bool) (cs : Input) : Option (Json × Input) := do
  let (whole, cs) := digits cs
  match whole with
  | [] => none
  | 0 :: _ :: _ => none
  | _ =>
    let (frac, cs) ← fraction? cs
    let (exp, cs) ← exponent? cs
    if wanted then some (← number? negative whole frac exp, cs) else some (.null, cs)

/-- The greatest depth of wanted lists and records. -/
def maxDepth : Nat := 127

mutual

/-- A value at the front. The first argument bounds the number of steps. -/
def value : Nat → Interest → Nat → Input → Option (Json × Input)
  | 0, _, _, _ => none
  | fuel + 1, want, depth, cs =>
    match skipSpace cs with
    | some 'n' :: some 'u' :: some 'l' :: some 'l' :: rest => some (.null, rest)
    | some 't' :: some 'r' :: some 'u' :: some 'e' :: rest => some (.bool true, rest)
    | some 'f' :: some 'a' :: some 'l' :: some 's' :: some 'e' :: rest => some (.bool false, rest)
    | some '"' :: rest => do
      let (s, rest) ← string want.any rest
      some (.str s, rest)
    | some '[' :: rest =>
      if want.any && maxDepth ≤ depth then none
      else match skipSpace rest with
        | some ']' :: rest => some (.arr [], rest)
        | rest => do
          let (items, rest) ← items fuel want (depth + 1) 0 rest
          some (.arr items, rest)
    | some '\x7b' :: rest =>
      if want.any && maxDepth ≤ depth then none
      else match skipSpace rest with
        | some '\x7d' :: rest => some (.obj [], rest)
        | rest => do
          let (members, rest) ← members fuel want (depth + 1) rest
          some (.obj members, rest)
    | some '-' :: rest => number want.any true rest
    | rest => number want.any false rest

/-- The items of a list from the one at a place on, and the closing bracket. -/
def items : Nat → Interest → Nat → Nat → Input → Option (List Json × Input)
  | 0, _, _, _, _ => none
  | fuel + 1, want, depth, index, cs => do
    let (v, rest) ← value fuel (want.ofItem index) depth cs
    match skipSpace rest with
    | some ',' :: rest =>
      let (more, rest) ← items fuel want depth (index + 1) rest
      some (v :: more, rest)
    | some ']' :: rest => some ([v], rest)
    | _ => none

/-- The members of a record and the closing brace. Members that are not wanted are left out. -/
def members : Nat → Interest → Nat → Input → Option (List (String × Json) × Input)
  | 0, _, _, _ => none
  | fuel + 1, want, depth, cs =>
    match skipSpace cs with
    | some '"' :: rest => do
      let (k, rest) ← string want.any rest
      match skipSpace rest with
      | some ':' :: rest =>
        let wanted := want.ofMember k
        let (v, rest) ← value fuel wanted depth rest
        let kept := if wanted.any then [(k, v)] else []
        match skipSpace rest with
        | some ',' :: rest =>
          let (more, rest) ← members fuel want depth rest
          some (kept ++ more, rest)
        | some '\x7d' :: rest => some (kept, rest)
        | _ => none
      | _ => none
    | _ => none

end

/-- The value that the input holds, and nothing after it but space. -/
def readInput (want : Interest) (cs : Input) : Option Json := do
  let (v, rest) ← value (2 * cs.length + 2) want 0 cs
  if (skipSpace rest).isEmpty then some v else none

/-- The value in the bytes. -/
def readBytes (want : Interest) (bytes : List UInt8) : Option Json :=
  readInput want (Text.Utf8.decode bytes)

/-- The value in a text. -/
def read (s : String) : Option Json := readInput .whole (s.toList.map some)

end MemoHints.Json
