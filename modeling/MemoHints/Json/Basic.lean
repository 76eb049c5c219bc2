import MemoHints.Decimal.Shortest

/-!
# JSON values

Values keep the members of a record as they were written, repeated names included. `find?` gives a
repeated name its last value, and `sorted` is the form in which a value is kept: names ascending,
each of them once.
-/

namespace MemoHints

/-- A JSON value. Numbers without fraction and exponent that fit 64 bits are integers. -/
inductive Json where
  | null
  | bool (b : Bool)
  | int (n : Int)
  | float (x : Binary64)
  | str (s : String)
  | arr (items : List Json)
  | obj (members : List (String × Json))

namespace Json

/-- Equality of values, members compared in their order. -/
def beq : Json → Json → Bool
  | .null, .null => true
  | .bool a, .bool b => a == b
  | .int a, .int b => a == b
  | .float a, .float b => a == b
  | .str a, .str b => a == b
  | .arr a, .arr b => beqItems a b
  | .obj a, .obj b => beqMembers a b
  | _, _ => false
where
  beqItems : List Json → List Json → Bool
    | [], [] => true
    | a :: as, b :: bs => beq a b && beqItems as bs
    | _, _ => false
  beqMembers : List (String × Json) → List (String × Json) → Bool
    | [], [] => true
    | (k, a) :: as, (l, b) :: bs => k == l && beq a b && beqMembers as bs
    | _, _ => false

instance : BEq Json := ⟨beq⟩

instance : Inhabited Json := ⟨.null⟩

/-- The last value of a name among members. -/
def find? (name : String) : List (String × Json) → Option Json
  | [] => none
  | (k, v) :: rest =>
    match find? name rest with
    | some w => some w
    | none => if k = name then some v else none

/-- The value of a name, if the value is a record that has it. -/
def get? (v : Json) (name : String) : Option Json :=
  match v with
  | .obj members => find? name members
  | _ => none

/-- The text of a string. -/
def str? : Json → Option String
  | .str s => some s
  | _ => none

/-- The texts of a list, without whatever else it holds. -/
def strings? : Json → Option (List String)
  | .arr items => some (items.filterMap str?)
  | _ => none

/-- Puts a member into ascending members, in place of one with the same name. -/
def insertMember (name : String) (value : Json) : List (String × Json) → List (String × Json)
  | [] => [(name, value)]
  | (k, v) :: rest =>
    if name < k then (name, value) :: (k, v) :: rest
    else if k = name then (name, value) :: rest
    else (k, v) :: insertMember name value rest

/-- Names ascending at every depth, the last value of each kept. -/
def sorted : Json → Json
  | .arr items => .arr (sortedItems items)
  | .obj members => .obj (sortedMembers [] members)
  | v => v
where
  sortedItems : List Json → List Json
    | [] => []
    | v :: rest => sorted v :: sortedItems rest
  sortedMembers (done : List (String × Json)) : List (String × Json) → List (String × Json)
    | [] => done
    | (k, v) :: rest => sortedMembers (insertMember k (sorted v) done) rest

/-- A natural number. -/
def nat (n : Nat) : Json := .int n

/-- A value or null. -/
def ofOption {α : Type} (f : α → Json) (x : Option α) : Json := (x.map f).getD .null

/-- The member of that name, if there is a value for it. -/
def member? {α : Type} (name : String) (f : α → Json) (x : Option α) : List (String × Json) :=
  match x with
  | some x => [(name, f x)]
  | none => []

end Json

end MemoHints
