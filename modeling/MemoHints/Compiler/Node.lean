import MemoHints.Compiler.Basic
import MemoHints.Event.Json
import MemoHints.Json.Printer
import MemoHints.Json.Reader
import MemoHints.Text.Blank

/-!
# The compiler in a child process

The compiler is JavaScript, so each request starts a program that reads it as JSON and writes a
reply as JSON. A reply counts only as a whole: one that cannot be read in every part that matters is
no reply.
-/

namespace MemoHints.Node

open Json

/-- How a process ended. -/
inductive ExitStatus where
  | exited (code : Nat)
  | killed (signal : Nat) (name : String)

def ExitStatus.display : ExitStatus → String
  | .exited code => "exit status: " ++ toString code
  | .killed signal name => "signal: " ++ toString signal ++ " (" ++ name ++ ")"

/-- What a process left behind. -/
structure ProcessResult where
  stdout : List UInt8
  stderr : List UInt8 := []
  status : ExitStatus := .exited 0

/-- The members of a request in their order. -/
def payloadJson (source filename plugin : String) (root : Option String) (mode : EmitMode) : Json :=
  .obj [("source", .str source), ("filename", .str filename), ("pluginPath", .str plugin),
    ("workspaceRoot", ofOption .str root), ("mode", .str mode.name)]

/-- A path as a text; a path need not be one. -/
def pathText (p : FilePath) : Except CompileError String :=
  match p.toString? with
  | some s => .ok s
  | none =>
    .error (.invalidOutput
      "Failed to encode compiler request: path contains invalid UTF-8 characters")

/-- What is written to the process. -/
def payload (request : CompileRequest) : Except CompileError String := do
  let plugin ← pathText request.plugin
  let root ← match request.root with
    | some root => some <$> pathText root
    | none => pure none
  return (payloadJson request.source request.filename plugin root request.mode).compact

/-- A reply of the process. -/
structure Reply where
  ok : Bool := false
  code : Option String := none
  events : List DiagnosticEvent := []
  message : Option String := none

namespace Reply

def recordType : RecordType Reply where
  name := "Reply"
  fields := [("ok", .always), ("code", .optional), ("events", .optional), ("message", .optional)]
  default := {}
  set reply name v :=
    match name with
    | "ok" => do return { reply with ok := ← readBool v }
    | "code" => do return { reply with code := ← readOption readString v }
    | "events" => do return { reply with events := ← readList DiagnosticEvent.read v }
    | "message" => do return { reply with message := ← readOption readString v }
    | _ => return reply

/-- The parts of a reply that matter. -/
def interest : Interest :=
  .record [("ok", .whole), ("code", .whole),
    ("events", .each (.record
      (DiagnosticEvent.recordType.fields.map fun field => (field.1, .whole)))),
    ("message", .whole)]

/-- The reply in the bytes, if they are one. -/
def ofBytes? (bytes : List UInt8) : Option Reply := do
  let v ← readBytes interest bytes
  (recordType.read v).toOption

/-- What a reply says. -/
def outcome (reply : Reply) : Except CompileError CompileOutput :=
  if reply.ok then .ok ⟨reply.code, reply.events⟩
  else .error (.gaveUp (reply.message.getD "Unknown compiler failure"))

end Reply

/-- What a process that ended says. -/
def ProcessResult.outcome (result : ProcessResult) : Except CompileError CompileOutput :=
  if result.stdout.isEmpty then
    let stderr := Text.trim (Text.Utf8.decodeLossy result.stderr).toList
    .error (.gaveUp
      ("node exited with " ++ result.status.display ++ ": " ++ String.ofList stderr))
  else
    match Reply.ofBytes? result.stdout with
    | some reply => reply.outcome
    | none => .error (.invalidOutput "Could not parse compiler output")

/-- A process that has started: what comes of writing an input to it, and then of waiting for its
end. What fails says why. -/
structure Child where
  write : String → Except String Unit
  wait : String → Except String ProcessResult

/-- How a program is started on its script, in a folder if one is given. -/
abbrev Launcher := FilePath → Option FilePath → Except String Child

/-- Has a program answer an input. All of the input is written before the process is waited for, and
a process that does not take it is not asked for its reply. -/
def Launcher.run (launch : Launcher) (program : FilePath) (folder : Option FilePath)
    (input : String) : Except CompileError CompileOutput := do
  let failed := CompileError.spawn program.display
  let child ← (launch program folder).mapError failed
  (child.write input).mapError fun message => failed ("Failed to write request: " ++ message)
  let result ← (child.wait input).mapError failed
  result.outcome

/-- Compiles with a program. -/
def compile (launch : Launcher) (program : FilePath) : Compiler := fun request => .ok do
  let input ← payload request
  launch.run program request.root input

/-- Starts the programs of a file tree. A name without a slash is looked for in the folders of
programs, which is left to `named`. -/
def Launcher.onFiles (tree : FileTree) (named : Launcher) (programAt : FilePath → Child) :
    Launcher := fun program folder =>
  if program.bytes.contains 0 then .error Fault.zeroByte.message
  else do
    if let some folder := folder then
      let e ← (tree.entry folder).mapError Fault.message
      if !e.isFolder then throw Fault.notFolder.message
    if program.bytes.contains FilePath.slash then
      let place := (folder.map (·.join program)).getD program
      match tree.entry place with
      | .error fault => .error fault.message
      | .ok (.file _ true) => .ok (programAt place)
      | .ok _ => .error Fault.noPermission.message
    else named program folder

end MemoHints.Node
