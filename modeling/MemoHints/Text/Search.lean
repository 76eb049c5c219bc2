/-!
# Search in a text

Occurrences of one text in another, from the left and without overlap, and pieces between marks.
-/

namespace MemoHints.Text

/-- What stands before the first occurrence of `needle`, and what stands after it. -/
def splitAtFirst (needle : List Char) : List Char → Option (List Char × List Char)
  | [] => if needle.isEmpty then some ([], []) else none
  | c :: rest =>
    if needle.isPrefixOf (c :: rest) then some ([], (c :: rest).drop needle.length)
    else (splitAtFirst needle rest).map fun parts => (c :: parts.1, parts.2)

/-- Whether `needle` occurs in the text. -/
def contains (needle text : List Char) : Bool := (splitAtFirst needle text).isSome

/-- Walks over the text with `skip` characters of an occurrence still to leave out. -/
def replaceFrom (needle filler : List Char) : Nat → List Char → List Char
  | _, [] => []
  | 0, c :: rest =>
    if needle.isPrefixOf (c :: rest) then
      filler ++ replaceFrom needle filler (needle.length - 1) rest
    else c :: replaceFrom needle filler 0 rest
  | skip + 1, _ :: rest => replaceFrom needle filler skip rest

/-- Puts `filler` in the place of every occurrence of `needle`, which must not be empty. -/
def replace (needle filler text : String) : String :=
  String.ofList (replaceFrom needle.toList filler.toList 0 text.toList)

/-- The pieces between the members where a predicate holds, one more than there are of those. -/
def splitWhere {α : Type} (p : α → Bool) : List α → List (List α)
  | [] => [[]]
  | c :: rest =>
    match splitWhere p rest with
    | [] => [[c]]
    | s :: more => if p c then [] :: s :: more else (c :: s) :: more

end MemoHints.Text
