import MemoHints.Json.Record
import MemoHints.Uri.Basic

/-!
# Parameters of the language server protocol

The records that editors send along with their messages, as far as a server of hints looks at them.
-/

namespace MemoHints.Protocol

open Json

def readUri : Read Uri
  | .str s =>
    match Uri.ofString s with
    | .ok uri => .ok uri
    | .error e => .error (.badText s e.message)
  | v => .error (.wrongType v "a string representing an URL")

/-- An integer of 32 bits. -/
def readVersion : Read Int := readInt (-(2 ^ 31)) (2 ^ 31 - 1) "i32"

/-- One of several names. -/
def readName (known : List String) : Read String
  | .str s => if s ∈ known then .ok s else .error (.unknownName s known)
  | v => .error (.wrongType v "string or map")

/-- A record of which only its being one matters. -/
def readSomeRecord (name : String) : Read Unit
  | .obj _ | .arr _ => .ok ()
  | v => .error (.wrongType v ("struct " ++ name))

/-- A token is an integer of 32 bits or a text. -/
def readToken : Read Unit
  | .str _ => .ok ()
  | .int n =>
    if -(2 ^ 31) ≤ n ∧ n < 2 ^ 31 then .ok () else .error (.noKind "NumberOrString")
  | _ => .error (.noKind "NumberOrString")

/-- Reads a record that shares its object with the token of a task. It is never a list. -/
def readWithToken {α : Type} (type : RecordType α) : Read α
  | .obj members => do
    let x ← type.read (.obj members)
    let _ ← readOption readToken ((find? "workDoneToken" members).getD .null)
    return x
  | v => .error (.wrongType v type.title)

/-- A document by its address. -/
def documentType : RecordType (Option Uri) where
  name := "TextDocumentIdentifier"
  fields := [("uri", .always)]
  default := none
  set document name v :=
    match name with
    | "uri" => some <$> readUri v
    | _ => return document

/-- The value of a field that must have been there. -/
def required {α : Type} (name : String) : Option α → Except ReadError α
  | some x => .ok x
  | none => .error (.missingField name)

def readDocument : Read Uri := fun v => do required "uri" (← documentType.read v)

/-! ## Places -/

/-- A line and a column. -/
def positionType : RecordType (Nat × Nat) where
  name := "Position"
  fields := [("line", .always), ("character", .always)]
  default := (0, 0)
  set position name v :=
    match name with
    | "line" => do return (← readWord v, position.2)
    | "character" => do return (position.1, ← readWord v)
    | _ => return position

/-- The lines on which a range starts and ends. -/
def linesType : RecordType (Nat × Nat) where
  name := "Range"
  fields := [("start", .always), ("end", .always)]
  default := (0, 0)
  set range name v :=
    match name with
    | "start" => do return ((← positionType.read v).1, range.2)
    | "end" => do return (range.1, (← positionType.read v).1)
    | _ => return range

/-! ## Documents -/

/-- A document as it was opened. -/
structure OpenedDocument where
  uri : Option Uri := none
  languageId : String := ""
  version : Int := 0
  text : String := ""

namespace OpenedDocument

def recordType : RecordType OpenedDocument where
  name := "TextDocumentItem"
  fields := [("uri", .always), ("languageId", .always), ("version", .always), ("text", .always)]
  default := {}
  set document name v :=
    match name with
    | "uri" => do return { document with uri := ← some <$> readUri v }
    | "languageId" => do return { document with languageId := ← readString v }
    | "version" => do return { document with version := ← readVersion v }
    | "text" => do return { document with text := ← readString v }
    | _ => return document

def paramsType : RecordType OpenedDocument where
  name := "DidOpenTextDocumentParams"
  fields := [("textDocument", .always)]
  default := {}
  set document name v :=
    match name with
    | "textDocument" => recordType.read v
    | _ => return document

end OpenedDocument

/-- A change of a document, with the texts that it has had meanwhile. -/
structure ChangedDocument where
  uri : Option Uri := none
  version : Int := 0
  texts : List String := []

namespace ChangedDocument

/-- The address and the version. -/
def recordType : RecordType ChangedDocument where
  name := "VersionedTextDocumentIdentifier"
  fields := [("uri", .always), ("version", .always)]
  default := {}
  set document name v :=
    match name with
    | "uri" => do return { document with uri := ← some <$> readUri v }
    | "version" => do return { document with version := ← readVersion v }
    | _ => return document

/-- The text of one change. -/
def changeType : RecordType String where
  name := "TextDocumentContentChangeEvent"
  fields := [("range", .inList), ("rangeLength", .inList), ("text", .always)]
  default := ""
  set text name v :=
    match name with
    | "range" => do
      let _ ← readOption linesType.read v
      return text
    | "rangeLength" => do
      let _ ← readOption readWord v
      return text
    | "text" => readString v
    | _ => return text

def paramsType : RecordType ChangedDocument where
  name := "DidChangeTextDocumentParams"
  fields := [("textDocument", .always), ("contentChanges", .always)]
  default := {}
  set document name v :=
    match name with
    | "textDocument" => do return { ← recordType.read v with texts := document.texts }
    | "contentChanges" => do return { document with texts := ← readList changeType.read v }
    | _ => return document

end ChangedDocument

/-- The address of a closed document. -/
def closedType : RecordType (Option Uri) where
  name := "DidCloseTextDocumentParams"
  fields := [("textDocument", .always)]
  default := none
  set document name v :=
    match name with
    | "textDocument" => some <$> readDocument v
    | _ => return document

/-- The value of the settings. -/
def configurationType : RecordType Json where
  name := "DidChangeConfigurationParams"
  fields := [("settings", .always)]
  default := .null
  set settings name v :=
    match name with
    | "settings" => readAny v
    | _ => return settings

/-! ## Questions -/

/-- A document and two lines of it. -/
structure LineRange where
  uri : Option Uri := none
  first : Nat := 0
  last : Nat := 0

/-- The lines whose hints are wanted. -/
def inlayHintType : RecordType LineRange where
  name := "InlayHintParams"
  fields := [("textDocument", .always), ("range", .always)]
  default := {}
  set lines name v :=
    match name with
    | "textDocument" => do return { lines with uri := ← some <$> readDocument v }
    | "range" => do
      let (first, last) ← linesType.read v
      return { lines with first, last }
    | _ => return lines

/-- The line that the pointer is on. -/
def hoverType : RecordType LineRange where
  name := "HoverParams"
  fields := [("textDocument", .always), ("position", .always)]
  default := {}
  set lines name v :=
    match name with
    | "textDocument" => do return { lines with uri := ← some <$> readDocument v }
    | "position" => do
      let (line, _) ← positionType.read v
      return { lines with first := line, last := line }
    | _ => return lines

/-- A command and its arguments. -/
structure CommandCall where
  command : String := ""
  arguments : List Json := []

def commandType : RecordType CommandCall where
  name := "ExecuteCommandParams"
  fields := [("command", .always), ("arguments", .optional)]
  default := {}
  set call name v :=
    match name with
    | "command" => do return { call with command := ← readString v }
    | "arguments" => do return { call with arguments := ← readList readAny v }
    | _ => return call

end MemoHints.Protocol
