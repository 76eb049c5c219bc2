import MemoHints.Json.Basic

/-!
# Compiler events

What the compiler reports about one function: whether it was compiled, where the function stands,
and, when it was not compiled, why. Releases of the compiler differ in where they put the reason and
the place of a failure, so both are looked up from the most specific place to the least.
-/

namespace MemoHints

/-- The kind of an event. -/
inductive EventKind where
  | compileSuccess
  | compileError
  | compileDiagnostic
  | pipelineError
  | other (name : String)
deriving DecidableEq

/-- Which way a compilation went. -/
inductive Outcome where
  | success
  | failure
deriving DecidableEq

namespace EventKind

def ofName : String → EventKind
  | "CompileSuccess" => .compileSuccess
  | "CompileError" => .compileError
  | "CompileDiagnostic" => .compileDiagnostic
  | "PipelineError" => .pipelineError
  | name => .other name

def name : EventKind → String
  | .compileSuccess => "CompileSuccess"
  | .compileError => "CompileError"
  | .compileDiagnostic => "CompileDiagnostic"
  | .pipelineError => "PipelineError"
  | .other name => name

/-- The outcome that a kind stands for, if it is one of those that are shown. -/
def outcome? : EventKind → Option Outcome
  | .compileSuccess => some .success
  | .compileError | .compileDiagnostic | .pipelineError => some .failure
  | .other _ => none

end EventKind

/-- A point in a source text. Lines count from one, columns from zero. -/
structure SourcePoint where
  line : Option Nat := none
  column : Option Nat := none
  index : Option Nat := none
deriving DecidableEq

/-- A stretch of a source text. -/
structure SourceRange where
  start : Option SourcePoint := none
  finish : Option SourcePoint := none
deriving DecidableEq

namespace SourceRange

def startLine? (range : SourceRange) : Option Nat := range.start.bind (·.line)

/-- Whether one of its ends has a line. -/
def hasPosition (range : SourceRange) : Bool :=
  (range.start.bind (·.line)).isSome || (range.finish.bind (·.line)).isSome

end SourceRange

/-- One entry in the details of a failure. -/
structure DetailEntry where
  kind : Option String := none
  loc : Option SourceRange := none
  message : Option String := none

/-- Why a function was not compiled. The options are a nested description of the same form. -/
structure EventDetail where
  reason : Option String := none
  description : Option String := none
  suggestions : List Json := []
  loc : Option SourceRange := none
  details : List DetailEntry := []
  options : Option EventDetail := none

/-- A stretch of a document. Lines and characters count from zero. -/
structure ErrorSpan where
  startLine : Nat
  startCharacter : Nat
  endLine : Nat
  endCharacter : Nat
deriving DecidableEq

namespace EventDetail

/-- The reason of the options, or else the one outside them, unless that is empty. -/
def reason? (detail : EventDetail) : Option String :=
  ((detail.options.bind (·.reason)).or detail.reason).filter (· ≠ "")

/-- The description of the options, or else the one outside them, unless that is empty. -/
def description? (detail : EventDetail) : Option String :=
  ((detail.options.bind (·.description)).or detail.description).filter (· ≠ "")

/-- Where the details place the failure. -/
def firstEntryRange? (detail : EventDetail) : Option SourceRange :=
  (detail.details.head?.bind (·.loc)).filter SourceRange.hasPosition

/-- Where the description itself places the failure. -/
def ownRange? (detail : EventDetail) : Option SourceRange :=
  detail.loc.filter SourceRange.hasPosition

/-- The first of the four places that has a position. -/
def errorRange? (detail : EventDetail) : Option SourceRange :=
  (detail.options.bind firstEntryRange?)
    |>.or (detail.options.bind ownRange?)
    |>.or detail.firstEntryRange?
    |>.or detail.ownRange?

/-- The range in lines and characters of a document. What the range leaves out is at its start. -/
def spanOf (range : SourceRange) : ErrorSpan :=
  let start := range.start.getD {}
  let finish := range.finish.getD start
  let startLine := start.line.getD 1 - 1
  { startLine
    startCharacter := start.column.getD 0
    endLine := (finish.line.map (· - 1)).getD startLine
    endCharacter := finish.column.getD 0 }

def errorSpan? (detail : EventDetail) : Option ErrorSpan := detail.errorRange?.map spanOf

end EventDetail

/-- One fact about one function. -/
structure DiagnosticEvent where
  kind : Option EventKind := none
  filename : Option String := none
  fnLoc : Option SourceRange := none
  fnName : Option String := none
  detail : Option EventDetail := none

namespace DiagnosticEvent

def outcome? (event : DiagnosticEvent) : Option Outcome := event.kind.bind EventKind.outcome?

/-- The line on which the function starts. -/
def functionLine? (event : DiagnosticEvent) : Option Nat :=
  event.fnLoc.bind SourceRange.startLine?

def reason (event : DiagnosticEvent) : String :=
  (event.detail.bind EventDetail.reason?).getD "Unknown reason"

def description? (event : DiagnosticEvent) : Option String :=
  event.detail.bind EventDetail.description?

def errorSpan? (event : DiagnosticEvent) : Option ErrorSpan :=
  event.detail.bind EventDetail.errorSpan?

/-- The name of the component, for a function that has one. -/
def componentName (event : DiagnosticEvent) : String :=
  (event.fnName.filter (· ≠ "")).getD "Component"

end DiagnosticEvent

/-- The events of one run, by outcome. -/
structure CompileResult where
  successful : List DiagnosticEvent := []
  failed : List DiagnosticEvent := []

namespace CompileResult

/-- Sorts events by outcome. Those without one are left out. -/
def ofEvents (events : List DiagnosticEvent) : CompileResult :=
  { successful := events.filter (·.outcome? == some .success)
    failed := events.filter (·.outcome? == some .failure) }

def isEmpty (result : CompileResult) : Bool :=
  result.successful.isEmpty && result.failed.isEmpty

end CompileResult

end MemoHints
