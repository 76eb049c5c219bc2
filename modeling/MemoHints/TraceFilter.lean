import MemoHints.Text.Blank
import MemoHints.Text.CharacterClass
import MemoHints.Text.Natural
import MemoHints.Text.Search

/-!
# Filters of trace output

A filter is a list of directives between commas. A directive names a target, or a span in brackets
with fields in braces, and may end in a level after an equals sign:
`target`, `target[span{field=value}]=level`, `level`.
-/

namespace MemoHints.TraceFilter

/-- The variable that holds the filter. -/
def variableName : String := "REACT_COMPILER_MARKER_TRACE"

/-- The names of levels, in lower case. -/
def levelNames : List String := ["error", "warn", "info", "debug", "trace", "off"]

/-- Whether a text names a level, by a number or by a name in letters of any case. The empty text is
the default. -/
def isLevel (cs : List Char) : Bool :=
  cs.isEmpty ||
    (match Text.natural? (String.ofList cs) with
      | some n => n ≤ 5
      | none => String.ofList (cs.map Char.toLower) ∈ levelNames)

/-- Whether a target may begin with a character: a letter or a number of any script, or one of three
marks. -/
def startsTarget (c : Char) : Bool :=
  c == '-' || c == ':' || c == '_' || Text.inRanges Text.alphanumericRanges c

/-- A directive's level as it is written, if it has one. -/
abbrev LevelText := Option (List Char)

/-- What may follow the brackets: an equals sign and a level. -/
def afterSpan? : List Char → Option LevelText
  | [] => some none
  | '=' :: level => some (some level)
  | _ => none

/-- What may follow an opening brace: at least one character, the closing brace, and the bracket. -/
def afterBrace? (cs : List Char) : Option LevelText :=
  match cs, cs.dropWhile (· ≠ '\x7d') with
  | '\x7d' :: _, _ => none
  | _, _ :: ']' :: rest => afterSpan? rest
  | _, _ => none

/-- What may follow an opening bracket. -/
def afterBracket? (cs : List Char) : Option LevelText :=
  match cs.dropWhile fun c => c ≠ ']' && c ≠ '\x7b' with
  | ']' :: rest => afterSpan? rest
  | _ :: rest => afterBrace? rest
  | [] => none

/-- The level of a directive without space around it; none if it is no directive. -/
def level? (cs : List Char) : Option LevelText :=
  match cs with
  | [] => none
  | '[' :: rest => afterBracket? rest
  | c :: _ =>
    if startsTarget c then
      match cs.dropWhile fun c => c ≠ '=' && c ≠ '[' with
      | '[' :: rest => afterBracket? rest
      | _ :: level => some (some level)
      | [] => some none
    else none

/-- Whether a text is a directive. Space around it does not matter unless there is a level. -/
def isDirective (cs : List Char) : Bool :=
  match level? (Text.trim cs) with
  | none => false
  | some none => true
  | some (some level) => Text.trim cs = cs && isLevel level

/-- Whether a text is a filter. Nothing need stand between two commas. -/
def isFilter (s : String) : Bool :=
  ((Text.splitWhere (· = ',') s.toList).filter (!·.isEmpty)).all isDirective

end MemoHints.TraceFilter
