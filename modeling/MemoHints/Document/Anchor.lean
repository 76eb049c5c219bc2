import MemoHints.Text.Blank
import MemoHints.Text.Search
import MemoHints.Text.Units

/-!
# Anchors of hints

The column on a line at which a hint stands, and the comment that turns hints off for a component.
-/

namespace MemoHints

/-- Where a hint stands on a line without a declaration. -/
inductive AnchorFallback where
  | lineEnd
  | lineStart
deriving DecidableEq, Repr

/-- Starts of declarations, the more specific before the ones they contain. -/
def declarationStarts : List String :=
  ["export default async function", "export default function", "export async function",
    "export function", "async function", "function", "export const", "const"]

/-- The comment that turns hints off for the component on the next line. -/
def disableComment : String := "react-compiler-marker-disable"

/-- The text up to the end of the first occurrence of `needle`. -/
def upTo (line needle : List Char) : Option (List Char) :=
  (Text.splitAtFirst needle line).map fun parts => parts.1 ++ needle

/-- The part of a line that stands before its hint. -/
def beforeAnchor (line : List Char) (fallback : AnchorFallback) : List Char :=
  let line := Text.trimEnd line
  match declarationStarts.findSome? fun start => upTo line start.toList with
  | some found => found
  | none =>
    match fallback with
    | .lineEnd => line
    | .lineStart => []

/-- The column right after the first declaration of the first kind that the line has. Columns are
numbers of 32 bits; lines of `2 ^ 32` units or more, whose columns would wrap around, are left
out. -/
def anchorColumn (line : String) (fallback : AnchorFallback) : Nat :=
  Text.units16 (beforeAnchor line.toList fallback)

/-- Whether the line above a line holds the comment that turns hints off. -/
def isDisabled (lines : List String) (line : Nat) : Bool :=
  match line with
  | 0 => false
  | above + 1 =>
    match lines[above]? with
    | some text => Text.contains disableComment.toList (Text.trim text.toList)
    | none => false

end MemoHints
