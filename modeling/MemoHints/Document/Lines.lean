/-!
# Lines of a document

Lines as an editor counts them: `\r\n`, `\n` and a lone `\r` end a line, and what follows the last
of them is one more line, even when it is empty.
-/

namespace MemoHints

/-- The lines of a text. -/
def linesOf : List Char → List (List Char)
  | [] => [[]]
  | '\r' :: '\n' :: rest => [] :: linesOf rest
  | c :: rest =>
    if c = '\n' ∨ c = '\r' then [] :: linesOf rest
    else
      match linesOf rest with
      | [] => [[c]]
      | line :: more => (c :: line) :: more

/-- The lines of a document. -/
def documentLines (text : String) : List String := (linesOf text.toList).map String.ofList

end MemoHints
