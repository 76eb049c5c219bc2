import MemoHints.Text.Lowercase
import MemoHints.Text.Search
import MemoHints.Text.Utf8

/-!
# File paths

Paths are bytes divided by slashes. Two paths are the same when their parts are, so repeated slashes
and single dots do not tell them apart; double dots do. Joining keeps both texts as they are.
-/

namespace MemoHints

/-- A path as it is written. -/
structure FilePath where
  bytes : List UInt8
deriving DecidableEq

namespace FilePath

def slash : UInt8 := 0x2F

def dot : UInt8 := 0x2E

def ofString (s : String) : FilePath := ⟨Text.Utf8.encode s⟩

/-- The path as a text, for messages. -/
def display (p : FilePath) : String := Text.Utf8.decodeLossy p.bytes

/-- The path as a text, if it is one. -/
def toString? (p : FilePath) : Option String := Text.Utf8.decode? p.bytes

def isEmpty (p : FilePath) : Bool := p.bytes.isEmpty

def isAbsolute (p : FilePath) : Bool := p.bytes.head? == some slash

def endsWithSlash (p : FilePath) : Bool := p.bytes.getLast? == some slash

/-- The path of `other` seen from `base`, which an absolute one replaces. -/
def join (base other : FilePath) : FilePath :=
  if other.isAbsolute || base.isEmpty then other
  else if base.endsWithSlash then ⟨base.bytes ++ other.bytes⟩
  else ⟨base.bytes ++ slash :: other.bytes⟩

/-- A part of a path. -/
inductive Part where
  | root
  | current
  | parent
  | name (bytes : List UInt8)
deriving DecidableEq

/-- The bytes between slashes. -/
def segments (bytes : List UInt8) : List (List UInt8) := Text.splitWhere (· = slash) bytes

/-- The part that a segment stands for; nothing for an empty one. -/
def partOf (segment : List UInt8) : Option Part :=
  if segment = [] then none
  else if segment = [dot] then some .current
  else if segment = [dot, dot] then some .parent
  else some (.name segment)

/-- The parts of the path. A single dot is one only at the start of a relative path. -/
def parts (p : FilePath) : List Part :=
  let found := (segments p.bytes).filterMap partOf
  if p.isAbsolute then .root :: found.filter (· ≠ .current)
  else
    match found with
    | .current :: rest => .current :: rest.filter (· ≠ .current)
    | found => found.filter (· ≠ .current)

/-- Equality of parts. -/
def same (p q : FilePath) : Bool := p.parts = q.parts

/-- The parts of `p` below `base`, if it is below. -/
def below? (base p : FilePath) : Option (List Part) :=
  if base.parts.isPrefixOf p.parts then some (p.parts.drop base.parts.length) else none

/-- The names among parts, as a text with slashes between them. -/
def namesText (parts : List Part) : String :=
  "/".intercalate (parts.filterMap fun part =>
    match part with
    | .name bytes => some (Text.Utf8.decodeLossy bytes)
    | _ => none)

/-- The path of `p` below `base`, or the whole of it if it lies elsewhere, as a text of names. -/
def relativeText (base p : FilePath) : String := namesText ((below? base p).getD p.parts)

/-- The bytes after the last dot of a name, if a dot stands there that is not the first byte. -/
def extensionOfName (name : List UInt8) : Option (List UInt8) :=
  let after := (name.reverse.takeWhile (· ≠ dot)).reverse
  if after.length + 1 < name.length then some after else none

/-- The extension of the last name, in lower case and with its dot. -/
def dottedExtension (p : FilePath) : Option String :=
  match p.parts.getLast? with
  | some (.name name) =>
    ((extensionOfName name).bind Text.Utf8.decode?).map fun ext => "." ++ Text.lowercase ext
  | _ => none

/-- The text of one part. -/
def Part.path : Part → FilePath
  | .root => ⟨[slash]⟩
  | .current => ⟨[dot]⟩
  | .parent => ⟨[dot, dot]⟩
  | .name bytes => ⟨bytes⟩

/-- The absolute path for one that is seen from the folder `cwd`: without single dots and repeated
slashes, but for exactly two at the start; double dots and a slash at the end stay. There is none
for the empty path. -/
def absolute? (p cwd : FilePath) : Option FilePath :=
  if p.isEmpty then none
  else
    let start : FilePath :=
      if p.isAbsolute then
        if [slash, slash].isPrefixOf p.bytes && !([slash, slash, slash].isPrefixOf p.bytes) then
          ⟨[slash, slash]⟩
        else ⟨[slash]⟩
      else cwd
    let parts := p.parts.filter fun part => part ≠ .root ∧ part ≠ .current
    let whole := parts.foldl (fun base part => base.join part.path) start
    some (if p.endsWithSlash then whole.join ⟨[]⟩ else whole)

end FilePath

end MemoHints
