import MemoHints.Client
import MemoHints.Event.Basic
import MemoHints.Json.Printer
import MemoHints.Text.Percent
import MemoHints.Text.Utf8

/-!
# Tooltips

A tooltip is a list of spans, and each dialect writes a span in its own way. In HTML every text of
the caller's is escaped. Links run commands of the editor; their arguments are JSON in a
percent-encoded query.
-/

namespace MemoHints

/-- Which links a tooltip may carry. -/
structure LinkOptions where
  commandLinks : Bool := false
  fixWithAi : Bool := false
deriving DecidableEq

/-- What the name of a command begins with. -/
def commandPrefix : String := "command:react-compiler-marker."

/-- A command of the editor with its arguments. -/
structure CommandLink where
  name : String
  arguments : Option Json := none

/-- The target of a link that runs a command. -/
def CommandLink.target (command : CommandLink) : String :=
  commandPrefix ++ command.name ++
    match command.arguments with
    | some arguments =>
      "?" ++ String.ofList (Percent.encodeBytes (Text.Utf8.encode arguments.sorted.compact))
    | none => ""

/-- A piece of a tooltip. -/
inductive Span where
  | text (s : String)
  | bold (s : String)
  | link (label : String) (command : CommandLink)
  | paragraphBreak
  | divider

/-- Writes the characters that mean something in HTML as entities. -/
def escapeHtmlChar : Char → List Char
  | '&' => "&amp;".toList
  | '<' => "&lt;".toList
  | '>' => "&gt;".toList
  | '"' => "&quot;".toList
  | '\'' => "&#39;".toList
  | c => [c]

def escapeHtml (s : String) : String := String.ofList (s.toList.flatMap escapeHtmlChar)

/-- A span in a dialect. -/
def Span.render (markup : Markup) (span : Span) : String :=
  match markup, span with
  | .markdown, .text s => s
  | .html, .text s => escapeHtml s
  | .markdown, .bold s => "**" ++ s ++ "**"
  | .html, .bold s => "<b>" ++ escapeHtml s ++ "</b>"
  | .markdown, .link label command => "[" ++ label ++ "](" ++ command.target ++ ")"
  | .html, .link label command =>
    "<a href=\"" ++ escapeHtml command.target ++ "\">" ++ escapeHtml label ++ "</a>"
  | .markdown, .paragraphBreak => "\n\n"
  | .html, .paragraphBreak => "<br><br>"
  | .markdown, .divider => "\n\n---\n\n"
  | .html, .divider => "<hr>"

/-- The spans in a dialect, one after the other. -/
def renderSpans (markup : Markup) (spans : List Span) : String :=
  String.join (spans.map (·.render markup))

/-- The first line of a tooltip. -/
def headline (emoji name verdict : String) : List Span :=
  [.text emoji, .text " ", .bold name, .text verdict]

/-- The tooltip of a compiled component. -/
def successSpans (emoji name : String) (links : LinkOptions) : List Span :=
  headline emoji name " has been auto-memoized by React Compiler." ++
    if links.commandLinks then
      [.paragraphBreak, .link "Preview compiled output" ⟨"previewCompiled", none⟩]
    else []

/-- The lines of a failure, counted from one. -/
def ErrorSpan.lines (span : ErrorSpan) : String :=
  if span.startLine = span.endLine then "📍 Line " ++ toString (span.startLine + 1)
  else "📍 Lines " ++ toString (span.startLine + 1) ++ "-" ++ toString (span.endLine + 1)

/-- A point of a document as editors name it. -/
def positionJson (line character : Nat) : Json :=
  .obj [("line", .nat line), ("character", .nat character)]

/-- Selects a failure's place. -/
def revealCommand (span : ErrorSpan) : CommandLink :=
  ⟨"revealSelection", some (.obj
    [("start", positionJson span.startLine span.startCharacter),
      ("end", positionJson span.endLine span.endCharacter)])⟩

/-- Asks an assistant to mend a failure. -/
def fixCommand (reason filename : String) (span : ErrorSpan) : CommandLink :=
  ⟨"fixWithAI", some (.obj
    [("reason", .str reason), ("filename", .str filename), ("startLine", .nat span.startLine),
      ("endLine", .nat span.endLine)])⟩

/-- The place of a failure and what can be done about it. -/
def placeSpans (reason filename : String) (links : LinkOptions) (span : ErrorSpan) : List Span :=
  [.paragraphBreak] ++
    (if links.commandLinks then [.link span.lines (revealCommand span)] else [.text span.lines]) ++
    if links.commandLinks && links.fixWithAi then
      [.text " ", .link "Fix with AI" (fixCommand reason filename span)]
    else []

/-- One failure. -/
def failureSpans (event : DiagnosticEvent) (filename : String) (links : LinkOptions) : List Span :=
  [.bold "Reason:", .text " ", .text event.reason] ++
    (match event.description? with
      | some description => [.paragraphBreak, .text description]
      | none => []) ++
    match event.errorSpan? with
    | some span => placeSpans event.reason filename links span
    | none => []

/-- Failures with dividers between them. -/
def failureSections (filename : String) (links : LinkOptions) :
    List DiagnosticEvent → List Span
  | [] => []
  | event :: rest =>
    [.paragraphBreak] ++ failureSpans event filename links ++
      rest.flatMap fun event => .divider :: failureSpans event filename links

/-- The tooltip of a component that was not compiled. -/
def failuresSpans (emoji name : String) (events : List DiagnosticEvent) (filename : String)
    (links : LinkOptions) : List Span :=
  headline emoji name " hasn't been memoized by React Compiler." ++
    failureSections filename links events

end MemoHints
