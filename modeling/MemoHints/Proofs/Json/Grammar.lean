import MemoHints.Json.Reader

/-!
# What a JSON text is

The grammar of JSON, apart from any reader: which characters denote which value (`Denotes`), with
space around it (`Holds`).  A caller may want a value in part only (`Interest`).  A part that is not
wanted has to be of the form of a value all the same, but that is all: its strings may hold broken
bytes and halves of surrogate pairs, its numbers may be too large, and it may be nested to any
depth.  Such a part denotes a blank of its kind.

The parts of a text carry the conditions on their characters with them (`Digits`, `Numeral`,
`Padded`), so a derivation says nothing about them.
-/

namespace MemoHints.Json

/-! ## Space -/

def IsSpace (cs : Input) : Prop := ∀ c ∈ cs, isSpace c = true

/-- Characters with space around them. -/
structure Padded where
  front : Input
  body : Input
  back : Input
  front_isSpace : IsSpace front
  back_isSpace : IsSpace back

namespace Padded

def whole (p : Padded) : Input := p.front ++ p.body ++ p.back

/-- Characters without space around them. -/
def tight (body : Input) : Padded := ⟨[], body, [], nofun, nofun⟩

end Padded

/-! ## Numbers -/

/-- One decimal digit or more. -/
structure Digits where
  chars : List Char
  ne_nil : chars ≠ []
  isDigit : ∀ c ∈ chars, c.isDigit = true

def Digits.values (ds : Digits) : List Nat := ds.chars.map (·.toNat - 48)

/-- The exponent after a number. -/
structure Exponent where
  mark : Char
  sign : List Char
  digits : Digits
  mark_mem : mark ∈ ['e', 'E']
  sign_mem : sign ∈ [[], ['+'], ['-']]

namespace Exponent

def chars (e : Exponent) : List Char := e.mark :: (e.sign ++ e.digits.chars)

def value (e : Exponent) : Int :=
  let n : Nat := e.digits.values.foldl (fun n d => n * 10 + d) 0
  if e.sign = ['-'] then -(n : Int) else n

end Exponent

/-- A number as it is written.  Only the number zero starts with a zero. -/
structure Numeral where
  negative : Bool
  whole : Digits
  fraction : Option Digits
  exponent : Option Exponent
  no_leading_zero : whole.chars.head? = some '0' → whole.chars = ['0']

namespace Numeral

/-- The characters after the sign. -/
def unsigned (n : Numeral) : List Char :=
  n.whole.chars ++ ((n.fraction.map ('.' :: ·.chars)).getD [] ++ (n.exponent.map (·.chars)).getD [])

def chars (n : Numeral) : List Char := if n.negative then '-' :: n.unsigned else n.unsigned

/-- The number that is written, unless it is too large. -/
def value? (n : Numeral) : Option Json :=
  number? n.negative n.whole.values (n.fraction.map (·.values)) (n.exponent.map (·.value))

end Numeral

/-- The characters are a number; one that is not wanted may be of any size. -/
def DenotesNumber (wanted : Bool) (cs : Input) (v : Json) : Prop :=
  ∃ n : Numeral, cs = n.chars.map some ∧ if wanted then n.value? = some v else v = .null

/-! ## Strings -/

/-- How a piece of a string is written: as it is, after a backslash, or by its number. -/
inductive Piece.Spelled : Piece → Input → Prop where
  | plain {c : Char} (h : ¬ c.toNat < 0x20) (hquote : c ≠ '"') (hback : c ≠ '\\') :
    Spelled (.char (some c)) [some c]
  | broken : Spelled (.char none) [none]
  | escape {e c : Char} (h : escaped? e = some c) : Spelled (.char (some c)) [some '\\', some e]
  | number {a b c d : Char} {w x y z : Nat} (ha : Text.hexValue? a = some w)
    (hb : Text.hexValue? b = some x) (hc : Text.hexValue? c = some y)
    (hd : Text.hexValue? d = some z) :
    Spelled (.unit (((w * 16 + x) * 16 + y) * 16 + z))
      [some '\\', some 'u', some a, some b, some c, some d]

/-- The characters between the quotes are these pieces. -/
inductive Spell : List Piece → Input → Prop where
  | nil : Spell [] []
  | cons {piece : Piece} {ps : List Piece} {cs rest : Input} (hpiece : piece.Spelled cs)
    (hrest : Spell ps rest) : Spell (piece :: ps) (cs ++ rest)

/-- The pieces are this text: no character is broken, and surrogates come in pairs. -/
inductive Joined : List Piece → List Char → Prop where
  | nil : Joined [] []
  | char {c : Char} {ps : List Piece} {cs : List Char} (hrest : Joined ps cs) :
    Joined (.char (some c) :: ps) (c :: cs)
  | unit {n : Nat} {ps : List Piece} {cs : List Char} (h : n < 0xD800 ∨ 0xE000 ≤ n)
    (hrest : Joined ps cs) : Joined (.unit n :: ps) (Char.ofNat n :: cs)
  | pair {n m : Nat} {ps : List Piece} {cs : List Char} (hn : 0xD800 ≤ n ∧ n < 0xDC00)
    (hm : 0xDC00 ≤ m ∧ m < 0xE000) (hrest : Joined ps cs) :
    Joined (.unit n :: .unit m :: ps)
      (Char.ofNat (0x10000 + (n - 0xD800) * 0x400 + (m - 0xDC00)) :: cs)

/-- The characters are a string in quotes; one that is not wanted need not be a text. -/
def DenotesString (wanted : Bool) (cs : Input) (s : String) : Prop :=
  ∃ ps inner, Spell ps inner ∧ cs = some '"' :: (inner ++ [some '"']) ∧
    if wanted then Joined ps s.toList else s = ""

/-! ## Values -/

/-- An item of a list, as a value and as it is written. -/
structure Item where
  value : Json
  text : Padded

/-- A member of a record. -/
structure Member where
  name : String
  label : Padded
  value : Json
  text : Padded

def Member.whole (m : Member) : Input := m.label.whole ++ some ':' :: m.text.whole

/-- Texts with commas between them. -/
def commas (texts : List Input) : Input := [some ','].intercalate texts

/-- Wanted lists and records are nested to a bounded depth. -/
def Room (want : Interest) (depth : Nat) : Prop := want.any = true → depth < maxDepth

/-- The members that are wanted. -/
def kept (want : Interest) (ms : List Member) : List (String × Json) :=
  (ms.filter fun m => (want.ofMember m.name).any).map fun m => (m.name, m.value)

def boolWord : Bool → List Char
  | true => ['t', 'r', 'u', 'e']
  | false => ['f', 'a', 'l', 's', 'e']

/-- The characters denote the value, of which as much as `want` says is wanted. -/
inductive Denotes : Interest → Nat → Input → Json → Prop where
  | null {want : Interest} {depth : Nat} : Denotes want depth (['n', 'u', 'l', 'l'].map some) .null
  | bool {want : Interest} {depth : Nat} (b : Bool) :
    Denotes want depth ((boolWord b).map some) (.bool b)
  | number {want : Interest} {depth : Nat} {cs : Input} {v : Json}
    (h : DenotesNumber want.any cs v) : Denotes want depth cs v
  | string {want : Interest} {depth : Nat} {cs : Input} {s : String}
    (h : DenotesString want.any cs s) : Denotes want depth cs (.str s)
  | noItems {want : Interest} {depth : Nat} {space : Input} (hroom : Room want depth)
    (hspace : IsSpace space) : Denotes want depth (some '[' :: (space ++ [some ']'])) (.arr [])
  | items {want : Interest} {depth : Nat} {xs : List Item} (hroom : Room want depth)
    (hne : xs ≠ [])
    (h : ∀ i x, xs[i]? = some x → Denotes (want.ofItem i) (depth + 1) x.text.body x.value) :
    Denotes want depth (some '[' :: (commas (xs.map (·.text.whole)) ++ [some ']']))
      (.arr (xs.map (·.value)))
  | noMembers {want : Interest} {depth : Nat} {space : Input} (hroom : Room want depth)
    (hspace : IsSpace space) :
    Denotes want depth (some '\x7b' :: (space ++ [some '\x7d'])) (.obj [])
  | members {want : Interest} {depth : Nat} {ms : List Member} (hroom : Room want depth)
    (hne : ms ≠ []) (hlabels : ∀ m ∈ ms, DenotesString want.any m.label.body m.name)
    (hvalues : ∀ m ∈ ms, Denotes (want.ofMember m.name) (depth + 1) m.text.body m.value) :
    Denotes want depth (some '\x7b' :: (commas (ms.map Member.whole) ++ [some '\x7d']))
      (.obj (kept want ms))

/-- The input holds the value and nothing else but space. -/
def Holds (want : Interest) (cs : Input) (v : Json) : Prop :=
  ∃ text : Padded, text.whole = cs ∧ Denotes want 0 text.body v

/-- The text is a JSON text of the value. -/
def IsTextOf (s : String) (v : Json) : Prop := Holds .whole (s.toList.map some) v

end MemoHints.Json
