import MemoHints.Json.Printer
import MemoHints.Text.Blank
import MemoHints.Text.Natural
import MemoHints.Text.Utf8

/-!
# Frames

On a stream each message follows a header that tells its length in bytes and ends in a blank line.
-/

namespace MemoHints.Protocol.Frame

/-- The name of the header line that matters. -/
def lengthName : String := "content-length"

/-- The length that a header line tells, if it is one that does. -/
def length? (line : String) : Option Nat :=
  match line.toList.dropWhile (· ≠ ':') with
  | ':' :: value =>
    let name := (Text.trim (line.toList.takeWhile (· ≠ ':'))).map Char.toLower
    if String.ofList name = lengthName then Text.natural? (String.ofList (Text.trim value))
    else none
  | _ => none

/-- Whether a line ends the header. -/
def isBlankLine (line : String) : Bool := (Text.trim line.toList).isEmpty

/-- A message with its header. -/
def encode (message : Json) : String :=
  let text := message.compact
  "Content-Length: " ++ toString (Text.Utf8.encode text).length ++ "\r\n\r\n" ++ text

end MemoHints.Protocol.Frame
