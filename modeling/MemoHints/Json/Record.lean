import MemoHints.Json.Basic
import MemoHints.Text.Quoted

/-!
# Records in JSON

Typed values out of JSON. A record is an object, or the list of its fields' values in the order of
their declaration. Objects are read member by member in their own order, so the first member that
cannot be read is the one that is reported; names that the record does not have are passed over.
-/

namespace MemoHints

/-- Why a value is not of the wanted type. -/
inductive ReadError where
  | wrongType (found : Json) (expected : String)
  | outOfRange (found : Int) (expected : String)
  | wrongLength (length : Nat) (expected : String)
  | missingField (name : String)
  | duplicateField (name : String)
  /-- A text that is not what it should be, and what is wrong with it. -/
  | badText (found reason : String)
  /-- A name that is not one of those known. -/
  | unknownName (found : String) (known : List String)
  /-- A value that is none of several kinds. -/
  | noKind (expected : String)

namespace Json

/-- How a message names a value. -/
def describe : Json → String
  | .null => "null"
  | .bool b => "boolean `" ++ (if b then "true" else "false") ++ "`"
  | .int n => "integer `" ++ toString n ++ "`"
  | .float x => "floating point `" ++ x.text ++ "`"
  | .str s => "string " ++ Text.quoted s
  | .arr _ => "sequence"
  | .obj _ => "map"

end Json

namespace ReadError

def message : ReadError → String
  | .wrongType found expected => "invalid type: " ++ found.describe ++ ", expected " ++ expected
  | .outOfRange found expected =>
    "invalid value: integer `" ++ toString found ++ "`, expected " ++ expected
  | .wrongLength length expected =>
    "invalid length " ++ toString length ++ ", expected " ++ expected
  | .missingField name => "missing field `" ++ name ++ "`"
  | .duplicateField name => "duplicate field `" ++ name ++ "`"
  | .badText found reason =>
    "invalid value: string " ++ Text.quoted found ++ ", expected " ++ reason
  | .unknownName found known =>
    "unknown variant `" ++ found ++ "`, expected one of " ++
      ", ".intercalate (known.map fun name => "`" ++ name ++ "`")
  | .noKind expected => "data did not match any variant of untagged enum " ++ expected

end ReadError

namespace Json

/-- A reader of one type. -/
abbrev Read (α : Type) := Json → Except ReadError α

/-- Any value at all. -/
def readAny : Read Json := .ok

def readString : Read String
  | .str s => .ok s
  | v => .error (.wrongType v "a string")

def readPath : Read String
  | .str s => .ok s
  | v => .error (.wrongType v "path string")

def readBool : Read Bool
  | .bool b => .ok b
  | v => .error (.wrongType v "a boolean")

/-- An integer between two bounds. -/
def readInt (low high : Int) (expected : String) : Read Int
  | .int n => if low ≤ n ∧ n ≤ high then .ok n else .error (.outOfRange n expected)
  | v => .error (.wrongType v expected)

/-- A natural number of so many bits. -/
def readNat (bits : Nat) (expected : String) : Read Nat := fun v =>
  (readInt 0 (2 ^ bits - 1) expected v).map Int.toNat

/-- A natural number of 32 bits. -/
def readWord : Read Nat := readNat 32 "u32"

/-- A natural number of 64 bits. -/
def readSize : Read Nat := readNat 64 "usize"

/-- Null is no value. -/
def readOption {α : Type} (read : Read α) : Read (Option α)
  | .null => .ok none
  | v => (read v).map some

/-- Every item of a list. -/
def readList {α : Type} (read : Read α) : Read (List α)
  | .arr items => items.mapM read
  | v => .error (.wrongType v "a sequence")

/-- What cannot be read is no value. -/
def lenient {α : Type} (read : Read α) (v : Json) : Option α := (read v).toOption

/-- What cannot be read is the empty list. -/
def lenientList {α : Type} (read : Read α) (v : Json) : List α :=
  (lenient (readList read) v).getD []

/-- Whether a record can do without a field. -/
inductive Need where
  /-- It has a default. -/
  | optional
  /-- It has a default, except in a list. -/
  | inList
  /-- It must be there. -/
  | always
deriving DecidableEq

/-- A record type: the name that messages give it, its fields in the order of their declaration, a
record of defaults, and how a field takes its value. -/
structure RecordType (α : Type) where
  name : String
  fields : List (String × Need)
  default : α
  set : α → String → Json → Except ReadError α

namespace RecordType

variable {α : Type} (type : RecordType α)

/-- What a message wants in place of the record. -/
def title : String := "struct " ++ type.name

/-- Takes the members of an object one after the other. -/
def readMembers : List String → α → List (String × Json) → Except ReadError α
  | seen, x, [] =>
    match type.fields.find? fun field => field.2 = .always ∧ field.1 ∉ seen with
    | some field => .error (.missingField field.1)
    | none => .ok x
  | seen, x, (name, v) :: rest =>
    if type.fields.any (·.1 = name) then
      if name ∈ seen then .error (.duplicateField name)
      else do readMembers (name :: seen) (← type.set x name v) rest
    else readMembers seen x rest

/-- Takes the items of a list for the fields in their order; `index` items were taken before. -/
def readItems : Nat → α → List (String × Need) → List Json → Except ReadError α
  | _, x, [], [] => .ok x
  | index, _, [], rest =>
    .error (.wrongLength (index + rest.length) "fewer elements in array")
  | index, x, field :: fields, [] =>
    if field.2 = .optional then readItems (index + 1) x fields []
    else .error (.wrongLength index
      (type.title ++ " with " ++ toString type.fields.length ++ " elements"))
  | index, x, field :: fields, v :: rest => do
    readItems (index + 1) (← type.set x field.1 v) fields rest

/-- Reads the record. -/
def read : Read α
  | .obj members => type.readMembers [] type.default members
  | .arr items => type.readItems 0 type.default type.fields items
  | v => .error (.wrongType v type.title)

end RecordType

end Json

end MemoHints
