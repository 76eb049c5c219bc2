import MemoHints.Document.Lines
import MemoHints.Hint.Tooltip
import MemoHints.Settings

/-!
# Hints

Events become hints: labels that stand in a document and a tooltip for each. Every compiled
component has a hint of its own, and the failures of one function share one. There is no hint for an
event that points outside the document, or at a component whose hints are turned off.
-/

namespace MemoHints

/-- A point of a document, both numbers from zero; the column counts units of UTF-16. -/
structure Position where
  line : Nat
  character : Nat
deriving DecidableEq, Repr

/-- What became of a component. -/
inductive HintStatus where
  | compiled
  | failed
deriving DecidableEq

def HintStatus.name : HintStatus → String
  | .compiled => "compiled"
  | .failed => "failed"

/-- A tooltip in its dialect. -/
structure Tooltip where
  markup : Markup
  value : String
deriving DecidableEq

/-- An annotation of a document. -/
structure Hint where
  position : Position
  label : String
  tooltip : Tooltip
  status : HintStatus
  paddingLeft : Bool := true
deriving DecidableEq

/-- What shapes hints besides the events. -/
structure HintConfig where
  successEmoji : Option String
  errorEmoji : Option String
  labelTemplate : String
  markup : Markup
  anchorFallback : AnchorFallback
  links : LinkOptions
  /-- The file that links for assistants name. -/
  filename : String

namespace HintConfig

def ofSettings (settings : Settings) (markup : Markup) (client : ClientProfile)
    (filename : String) : HintConfig :=
  { successEmoji := settings.successEmoji
    errorEmoji := settings.errorEmoji
    labelTemplate := settings.hintFormat
    markup
    anchorFallback := settings.anchorFallback
    links :=
      { commandLinks := client.supportsCommandLinks
        fixWithAi := client.supportsCommandLinks && client.supportsFixWithAi }
    filename }

/-- The template with its placeholders filled, one kind after the other. -/
def label (config : HintConfig) (emoji name : String) (status : HintStatus) : String :=
  Text.replace "\x7bstatus\x7d" status.name
    (Text.replace "\x7bname\x7d" name
      (Text.replace "\x7bemoji\x7d" emoji config.labelTemplate))

end HintConfig

/-- Where an event's hint stands. An event without a place stands on the first line. -/
def locate (lines : List String) (event : DiagnosticEvent) (fallback : AnchorFallback) :
    Option Position :=
  match event.functionLine?.getD 1 with
  | 0 => none
  | line + 1 =>
    match lines[line]? with
    | none => none
    | some text => if isDisabled lines line then none else some ⟨line, anchorColumn text fallback⟩

/-- Adds an event to the first group that has its place, or to a new one at the end. -/
def addToGroups (event : DiagnosticEvent) :
    List (List DiagnosticEvent) → List (List DiagnosticEvent)
  | [] => [[event]]
  | group :: rest =>
    match group.head? with
    | some first =>
      if first.fnLoc = event.fnLoc then (group ++ [event]) :: rest
      else group :: addToGroups event rest
    | none => group :: addToGroups event rest

/-- Failures by the place of their function, groups and their members in order of appearance. -/
def groupByFunction (failed : List DiagnosticEvent) : List (List DiagnosticEvent) :=
  failed.foldl (fun groups event => addToGroups event groups) []

/-- The hint of a compiled component. -/
def successHint? (lines : List String) (config : HintConfig) (emoji : String)
    (event : DiagnosticEvent) : Option Hint :=
  (locate lines event config.anchorFallback).map fun position =>
    { position
      label := config.label emoji event.componentName .compiled
      tooltip := ⟨config.markup,
        renderSpans config.markup (successSpans emoji event.componentName config.links)⟩
      status := .compiled }

/-- The hint of a group of failures, which stands where the first one does. -/
def failureHint? (lines : List String) (config : HintConfig) (emoji : String) :
    List DiagnosticEvent → Option Hint
  | [] => none
  | first :: rest =>
    (locate lines first config.anchorFallback).map fun position =>
      { position
        label := config.label emoji first.componentName .failed
        tooltip := ⟨config.markup,
          renderSpans config.markup
            (failuresSpans emoji first.componentName (first :: rest) config.filename
              config.links)⟩
        status := .failed }

/-- The hints of a document: those of compiled components, then those of failures. -/
def project (text : String) (result : CompileResult) (config : HintConfig) : List Hint :=
  let lines := documentLines text
  (match config.successEmoji with
    | some emoji => result.successful.filterMap (successHint? lines config emoji)
    | none => []) ++
  (match config.errorEmoji with
    | some emoji => (groupByFunction result.failed).filterMap (failureHint? lines config emoji)
    | none => [])

/-- The tooltip of the first hint on a line. -/
def hoverAt (hints : List Hint) (line : Nat) : Option Tooltip :=
  (hints.find? (·.position.line = line)).map (·.tooltip)

/-- The hint as editors take it. Tooltips of both dialects travel as Markdown. -/
def Hint.toInlayJson (hint : Hint) : Json :=
  .obj [("position", positionJson hint.position.line hint.position.character),
    ("label", .str hint.label), ("kind", .nat 1),
    ("tooltip", .obj [("kind", .str "markdown"), ("value", .str hint.tooltip.value)]),
    ("paddingLeft", .bool hint.paddingLeft)]

end MemoHints
