import MemoHints.Event.Basic
import MemoHints.Json.Record

/-!
# Events in JSON

Reading is forgiving where the compiler's output is loose: a place or a detail that is not of its
form counts as absent, and a list that is not is empty. The name of an event's kind, of its file and
of its function must be texts. Writing leaves out whatever is absent, the name of the file excepted.
-/

namespace MemoHints

open Json

namespace SourcePoint

def recordType : RecordType SourcePoint where
  name := "SourcePoint"
  fields := [("line", .optional), ("column", .optional), ("index", .optional)]
  default := {}
  set point name v :=
    match name with
    | "line" => do return { point with line := ← readOption readWord v }
    | "column" => do return { point with column := ← readOption readWord v }
    | "index" => do return { point with index := ← readOption readWord v }
    | _ => return point

def toJson (point : SourcePoint) : Json :=
  .obj (member? "line" nat point.line ++ member? "column" nat point.column ++
    member? "index" nat point.index)

end SourcePoint

namespace SourceRange

def recordType : RecordType SourceRange where
  name := "SourceRange"
  fields := [("start", .optional), ("end", .optional)]
  default := {}
  set range name v :=
    match name with
    | "start" => do return { range with start := ← readOption SourcePoint.recordType.read v }
    | "end" => do return { range with finish := ← readOption SourcePoint.recordType.read v }
    | _ => return range

def toJson (range : SourceRange) : Json :=
  .obj (member? "start" SourcePoint.toJson range.start ++
    member? "end" SourcePoint.toJson range.finish)

end SourceRange

namespace DetailEntry

def recordType : RecordType DetailEntry where
  name := "DetailEntry"
  fields := [("kind", .optional), ("loc", .optional), ("message", .optional)]
  default := {}
  set entry name v :=
    match name with
    | "kind" => do return { entry with kind := ← readOption readString v }
    | "loc" => return { entry with loc := lenient SourceRange.recordType.read v }
    | "message" => do return { entry with message := ← readOption readString v }
    | _ => return entry

def toJson (entry : DetailEntry) : Json :=
  .obj (member? "kind" .str entry.kind ++ member? "loc" SourceRange.toJson entry.loc ++
    member? "message" .str entry.message)

end DetailEntry

/-- The member of that name, unless the list is empty. -/
def nonEmptyMember {α : Type} (name : String) (f : α → Json) (xs : List α) :
    List (String × Json) :=
  if xs.isEmpty then [] else [(name, .arr (xs.map f))]

namespace EventDetail

/-- All fields but the options, which are read on their own. -/
def recordType : RecordType EventDetail where
  name := "EventDetail"
  fields := [("reason", .optional), ("description", .optional), ("suggestions", .optional),
    ("loc", .optional), ("details", .optional), ("options", .optional)]
  default := {}
  set detail name v :=
    match name with
    | "reason" => do return { detail with reason := ← readOption readString v }
    | "description" => do return { detail with description := ← readOption readString v }
    | "suggestions" => return { detail with suggestions := lenientList readAny v }
    | "loc" => return { detail with loc := lenient SourceRange.recordType.read v }
    | "details" => return { detail with details := lenientList DetailEntry.recordType.read v }
    | _ => return detail

/-- The place of the options in the list of an `EventDetail`'s fields. -/
def optionsIndex : Nat := 5

/-- Reads a detail whose names are all different. -/
def read : Json → Except ReadError EventDetail
  | .obj members => do
    return { ← recordType.read (.obj members) with options := readMember members }
  | .arr items => do
    return { ← recordType.read (.arr items) with options := readItem optionsIndex items }
  | v => recordType.read v
where
  readMember : List (String × Json) → Option EventDetail
    | [] => none
    | (name, v) :: rest =>
      if name = "options" then (read v).toOption else readMember rest
  readItem : Nat → List Json → Option EventDetail
    | _, [] => none
    | 0, v :: _ => (read v).toOption
    | index + 1, _ :: rest => readItem index rest

def toJson : EventDetail → Json
  | ⟨reason, description, suggestions, loc, details, options⟩ =>
    .obj (member? "reason" .str reason ++ member? "description" .str description ++
      nonEmptyMember "suggestions" id suggestions ++
      member? "loc" SourceRange.toJson loc ++
      nonEmptyMember "details" DetailEntry.toJson details ++
      match options with
      | some nested => [("options", toJson nested)]
      | none => [])

end EventDetail

namespace DiagnosticEvent

def recordType : RecordType DiagnosticEvent where
  name := "DiagnosticEvent"
  fields := [("kind", .optional), ("filename", .optional), ("fnLoc", .optional),
    ("fnName", .optional), ("detail", .optional)]
  default := {}
  set event name v :=
    match name with
    | "kind" => do
      return { event with kind := (← readOption readString v).map EventKind.ofName }
    | "filename" => do return { event with filename := ← readOption readString v }
    | "fnLoc" => return { event with fnLoc := lenient SourceRange.recordType.read v.sorted }
    | "fnName" => do return { event with fnName := ← readOption readString v }
    | "detail" => return { event with detail := lenient EventDetail.read v.sorted }
    | _ => return event

/-- Reads an event. -/
def read : Read DiagnosticEvent := recordType.read

def toJson (event : DiagnosticEvent) : Json :=
  .obj (member? "kind" (.str ·.name) event.kind ++
    [("filename", ofOption .str event.filename)] ++
    member? "fnLoc" SourceRange.toJson event.fnLoc ++
    member? "fnName" .str event.fnName ++
    member? "detail" EventDetail.toJson event.detail)

end DiagnosticEvent

namespace CompileResult

def recordType : RecordType CompileResult where
  name := "CompileResult"
  fields := [("successfulCompilations", .always), ("failedCompilations", .always)]
  default := {}
  set result name v :=
    match name with
    | "successfulCompilations" => do
      return { result with successful := ← readList DiagnosticEvent.read v }
    | "failedCompilations" => do
      return { result with failed := ← readList DiagnosticEvent.read v }
    | _ => return result

def read : Read CompileResult := recordType.read

def toJson (result : CompileResult) : Json :=
  .obj [("successfulCompilations", .arr (result.successful.map DiagnosticEvent.toJson)),
    ("failedCompilations", .arr (result.failed.map DiagnosticEvent.toJson))]

end CompileResult

end MemoHints
