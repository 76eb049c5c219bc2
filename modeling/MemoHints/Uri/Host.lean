import MemoHints.Numbers
import MemoHints.Text.Lowercase
import MemoHints.Text.Percent
import MemoHints.Text.Search
import MemoHints.Text.Utf8

/-!
# Hosts of addresses

A host is a name or a number: four bytes, or eight words in brackets. Names of the web's schemes are
in lower case and in ASCII, other characters by Punycode; names of other schemes stay as they are.
-/

namespace MemoHints

/-- Why a text is no address. -/
inductive UriError where
  | noScheme
  | emptyHost
  | badName
  | badFourBytes
  | badBrackets
  | badCharacter
  | badPort
deriving DecidableEq

def UriError.message : UriError → String
  | .noScheme => "relative URL without a base"
  | .emptyHost => "empty host"
  | .badName => "invalid international domain name"
  | .badFourBytes => "invalid IPv4 address"
  | .badBrackets => "invalid IPv6 address"
  | .badCharacter => "invalid domain character"
  | .badPort => "invalid port number"

namespace Uri

/-- The number that digits make in a base, if all of them are digits of it. -/
def digitsValue? (base : Nat) (cs : List Char) : Option Nat :=
  cs.foldlM (fun n c => do
    let d ← Text.hexValue? c
    if d < base then some (n * base + d) else none) 0

/-- A part of an address of four bytes: decimal, octal after a zero, hexadecimal after `0x`. -/
def partValue? : List Char → Option Nat
  | [] => none
  | '0' :: 'x' :: rest | '0' :: 'X' :: rest => digitsValue? 16 rest
  | ['0'] => some 0
  | '0' :: rest => digitsValue? 8 rest
  | cs => digitsValue? 10 cs

/-- The parts of a name, without an empty one at the end. -/
def labels (name : List Char) : List (List Char) :=
  let found := Text.splitWhere (· = '.') name
  match found.getLast? with
  | some [] => if found.length ≤ 1 then found else found.dropLast
  | _ => found

/-- Whether a name must be an address of four bytes. -/
def endsInNumber (name : List Char) : Bool :=
  match (labels name).getLast? with
  | some last => (!last.isEmpty && last.all Char.isDigit) || (partValue? last).isSome
  | none => false

/-- The address that the parts make: each but the last is a byte, and the last fills the rest. -/
def joinParts? (parts : List Nat) : Option Nat :=
  match parts.reverse with
  | [] => none
  | last :: before =>
    if 4 < parts.length ∨ 256 ^ (5 - parts.length) ≤ last ∨ before.any (255 < ·) then none
    else some (last + (before.reverse.zipIdx.map fun (n, i) => n * 256 ^ (3 - i)).sum)

def decimal (n : Nat) : List Char := Nat.toDigits 10 n

/-- An address of four bytes in decimal. -/
def fourBytes (n : Nat) : List Char :=
  decimal (n / 2 ^ 24) ++ '.' :: decimal (n / 2 ^ 16 % 256) ++ '.' :: decimal (n / 2 ^ 8 % 256) ++
    '.' :: decimal (n % 256)

def address? (name : List Char) : Option (List Char) := do
  let parts ← (labels name).mapM partValue?
  some (fourBytes (← joinParts? parts))

/-- A word of up to four hexadecimal digits. -/
def word? (cs : List Char) : Option Nat :=
  if cs.isEmpty ∨ 4 < cs.length then none else digitsValue? 16 cs

/-- A byte in decimal without leading zeros. -/
def byte? (cs : List Char) : Option Nat :=
  if cs.isEmpty ∨ 3 < cs.length ∨ (cs.head? = some '0' ∧ 1 < cs.length) then none
  else (digitsValue? 10 cs).filter (· < 256)

/-- Words between colons; the last two may be four bytes. -/
def words? : List (List Char) → Option (List Nat)
  | [] => some []
  | [last] =>
    if last.contains '.' then do
      match ← (Text.splitWhere (· = '.') last).mapM byte? with
      | [a, b, c, d] => some [a * 256 + b, c * 256 + d]
      | _ => none
    else do some [← word? last]
  | first :: rest => do some ((← word? first) :: (← words? rest))

/-- Words of one side of a double colon. -/
def sideWords? (cs : List Char) : Option (List Nat) :=
  if cs.isEmpty then some [] else words? (Text.splitWhere (· = ':') cs)

/-- What stands before a double colon, and after it. -/
def atDoubleColon : List Char → Option (List Char × List Char)
  | ':' :: ':' :: rest => some ([], rest)
  | c :: rest => (atDoubleColon rest).map fun (before, after) => (c :: before, after)
  | [] => none

/-- The eight words of an address. -/
def eightWords? (cs : List Char) : Option (List Nat) :=
  match atDoubleColon cs with
  | none => (words? (Text.splitWhere (· = ':') cs)).filter (·.length = 8)
  | some (before, after) => do
    if before.contains '.' then none
    else
      let front ← sideWords? before
      let back ← sideWords? after
      if 7 < front.length + back.length then none
      else some (front ++ List.replicate (8 - front.length - back.length) 0 ++ back)

/-- The length of the run of zeros at the front. -/
def zeroRun (words : List Nat) : Nat := (words.takeWhile (· == 0)).length

/-- Start and length of the first longest run of zeros from a place on. -/
def longestRun : Nat → List Nat → Nat × Nat
  | _, [] => (0, 0)
  | start, w :: rest =>
    let here := zeroRun (w :: rest)
    let later := longestRun (start + 1) rest
    if later.2 ≤ here then (start, here) else later

def hex (n : Nat) : List Char := Nat.toDigits 16 n

def joinWords (words : List Nat) : List Char := [':'].intercalate (words.map hex)

/-- Eight words in brackets, the first longest run of two or more zeros left out. -/
def bracketed (words : List Nat) : List Char :=
  let (start, length) := longestRun 0 words
  '[' :: (if length < 2 then joinWords words
    else joinWords (words.take start) ++ ':' :: ':' :: joinWords (words.drop (start + length))) ++
    [']']

/-! ## Punycode -/

/-- The bias after a difference was written. -/
def adapt (delta count : Nat) (first : Bool) : Nat :=
  let rec shrink (delta k : Nat) : Nat :=
    if _h : 455 < delta then shrink (delta / 35) (k + 36)
    else k + 36 * delta / (delta + 38)
  termination_by delta
  decreasing_by exact Nat.div_lt_self (by omega) (by omega)
  let delta := if first then delta / 700 else delta / 2
  shrink (delta + delta / count) 0

def threshold (k bias : Nat) : Nat := max 1 (min 26 (k - bias))

def punycodeDigit (d : Nat) : Char :=
  if d < 26 then Char.ofNat (97 + d) else Char.ofNat (22 + d)

/-- A difference in digits of a varying base. -/
def punycodeDigits (bias k q : Nat) : List Char :=
  let t := threshold k bias
  if _h : q < t then [punycodeDigit q]
  else punycodeDigit (t + (q - t) % (36 - t)) :: punycodeDigits bias (k + 36) ((q - t) / (36 - t))
termination_by q
decreasing_by
  have _ht : 1 ≤ threshold k bias := Nat.le_max_left _ _
  exact Nat.lt_of_le_of_lt (Nat.div_le_self _ _) (by simp only [t] at _h; omega)

/-- Writing of differences: the next code point, the difference so far, the bias, and how many
characters are written. -/
structure PunycodeState where
  point : Nat
  delta : Nat
  bias : Nat
  count : Nat
  out : List Char

/-- Goes over the characters once for the code point `m`. -/
def punycodePass (basic m : Nat) (input : List Char) (s : PunycodeState) : PunycodeState :=
  let s := { s with delta := s.delta + (m - s.point) * (s.count + 1) }
  let s := input.foldl (fun s c =>
    if c.toNat < m then { s with delta := s.delta + 1 }
    else if c.toNat = m then
      { s with
        out := s.out ++ punycodeDigits s.bias 36 s.delta
        bias := adapt s.delta (s.count + 1) (s.count == basic)
        delta := 0
        count := s.count + 1 }
    else s) s
  { s with delta := s.delta + 1, point := m + 1 }

/-- A name's part in ASCII. -/
def labelToAscii (label : List Char) : List Char :=
  let basic := label.filter (·.toNat < 0x80)
  if basic.length = label.length then label
  else
    let points := ((label.filter (0x80 ≤ ·.toNat)).map Char.toNat).mergeSort.eraseDups
    let start : PunycodeState :=
      ⟨0x80, 0, 72, basic.length, basic ++ if basic.isEmpty then [] else ['-']⟩
    "xn--".toList ++ (points.foldl (fun s m => punycodePass basic.length m label s) start).out

/-! ## Names -/

/-- Characters that no name of the web's schemes has. -/
def isForbidden (c : Char) : Bool :=
  c.toNat ≤ 0x20 || c.toNat == 0x7F ||
    ['#', '/', ':', '<', '>', '?', '@', '[', '\\', ']', '^', '|', '%'].contains c

/-- The host in brackets. -/
def bracketedHost (cs : List Char) : Except UriError (List Char) :=
  match if cs.getLast? = some ']' then eightWords? (cs.drop 1).dropLast else none with
  | some words => .ok (bracketed words)
  | none => .error .badBrackets

/-- A name in lower case and in ASCII. -/
def asciiName (name : String) : List Char :=
  ['.'].intercalate ((Text.splitWhere (· = '.') (Text.lowercase name).toList).map labelToAscii)

/-- A host of the web's schemes. -/
def specialHost (cs : List Char) : Except UriError (List Char) :=
  if cs.head? = some '[' then bracketedHost cs
  else
    match (Text.Utf8.decode? (Percent.decode cs)).map asciiName with
    | none => .error .badName
    | some name =>
      if name.any isForbidden then .error .badName
      else if name.isEmpty then .error .emptyHost
      else if endsInNumber name then
        match address? name with
        | some bytes => .ok bytes
        | none => .error .badFourBytes
      else .ok name

/-- A host of any other scheme. -/
def plainHost (cs : List Char) : Except UriError (List Char) :=
  if cs.head? = some '[' then bracketedHost cs
  else if cs.any fun c => ['\x00', '\t', '\n', '\r', ' ', '#', '/', ':', '<', '>', '?', '@', '[',
      '\\', ']', '^', '|'].contains c then .error .badCharacter
  else .ok (Percent.encode [] cs)

end Uri

end MemoHints
