import MemoHints.Json.Record
import MemoHints.Server.Basic

/-!
# Commands

What an editor may ask for by name. A command always answers with a record that tells whether it
succeeded; one that fails adds why and nothing else, and leaves the server as it was.
-/

namespace MemoHints

open Json

inductive Command where
  | activate
  | deactivate
  | compiledOutput
  /-- Asks the editor to request its hints again. -/
  | checkOnce
  | generateReport
deriving DecidableEq

namespace Command

def name : Command → String
  | .activate => "react-compiler-marker/activate"
  | .deactivate => "react-compiler-marker/deactivate"
  | .compiledOutput => "react-compiler-marker/getCompiledOutput"
  | .checkOnce => "react-compiler-marker/checkOnce"
  | .generateReport => "react-compiler-marker/generateReport"

def all : List Command := [.activate, .deactivate, .compiledOutput, .checkOnce, .generateReport]

def ofName? (name : String) : Option Command := all.find? (·.name = name)

end Command

/-- Why a command fails. -/
inductive CommandError where
  | unknown
  | noUri
  | invalidUri (text : String)
  | notOpen
  | compiler (e : CompileError)
  | compilerBroke (task : String) (breakdown : Breakdown)
  | badOptions (e : ReadError)
  | noFolder
  | report (e : ReportError)
  | reportBroke (task : String) (breakdown : Breakdown)

/-- What is said of a task that broke down. -/
def Breakdown.ofTask (breakdown : Breakdown) (task : String) : String :=
  "task " ++ task ++ " panicked with message " ++ Text.quoted breakdown.text

def CommandError.message : CommandError → String
  | .unknown => "Unknown command"
  | .noUri => "No URI provided"
  | .invalidUri text => "Invalid URI: " ++ text
  | .notOpen => "Document not found"
  | .compiler e => e.message
  | .compilerBroke task breakdown => "Compilation task failed: " ++ breakdown.ofTask task
  | .badOptions e => "Invalid report options: " ++ e.message
  | .noFolder => "No workspace folder available"
  | .report e => e.message
  | .reportBroke task breakdown => "Report task failed: " ++ breakdown.ofTask task

/-- The progress of a report that the editor gave an id. -/
structure ReportProgress where
  reportId : Json
  progress : Progress

def ReportProgress.toJson (p : ReportProgress) : Json :=
  .obj [("reportId", p.reportId), ("processed", .nat p.progress.processed),
    ("total", .nat p.progress.total)]

/-- What the editor wants of a report. What it does not say comes from the session and the
settings. -/
structure ReportRequest where
  root : Option FilePath := none
  reportId : Option Json := none
  maxConcurrency : Option Nat := none
  includeExtensions : Option (List String) := none
  excludeDirs : Option (List String) := none

namespace ReportRequest

def recordType : RecordType ReportRequest where
  name := "ReportArgs"
  fields := [("root", .inList), ("reportId", .inList), ("maxConcurrency", .inList),
    ("includeExtensions", .inList), ("excludeDirs", .inList)]
  default := {}
  set request name v :=
    match name with
    | "root" => do
      let root ← readOption readPath v
      return { request with root := root.map .ofString }
    | "reportId" => do return { request with reportId := ← readOption readAny v }
    | "maxConcurrency" => do return { request with maxConcurrency := ← readOption readSize v }
    | "includeExtensions" => do
      return { request with includeExtensions := ← readOption (readList readString) v }
    | "excludeDirs" => do
      return { request with excludeDirs := ← readOption (readList readString) v }
    | _ => return request

/-- The request in the first of the arguments, which may be missing or null. -/
def ofArguments (arguments : List Json) : Except ReadError ReportRequest :=
  match arguments with
  | [] | .null :: _ => .ok {}
  | v :: _ => recordType.read v.sorted

/-- The options of the report of a root. -/
def options (request : ReportRequest) (root : FilePath) (settings : Settings) : ReportOptions :=
  { root
    hint := .ofString settings.pluginPath
    maxConcurrency := request.maxConcurrency.or settings.maxConcurrency
    includeExtensions := request.includeExtensions.or settings.includeExtensions
    excludeDirs := request.excludeDirs.or settings.excludeDirs }

/-- The progress that the editor is told: none, unless it gave the report an id. -/
def told (request : ReportRequest) (progress : List Progress) : List ReportProgress :=
  match request.reportId with
  | none => []
  | some reportId => progress.map fun p => ⟨reportId, p⟩

end ReportRequest

/-- What a command answers: the members that follow the success, or why there is none. -/
abbrev CommandAnswer := Except CommandError (List (String × Json))

def CommandAnswer.toJson : CommandAnswer → Json
  | .ok members => .obj (("success", .bool true) :: members)
  | .error e => .obj [("success", .bool false), ("error", .str e.message)]

/-- What a command leads to. -/
structure CommandStep where
  answer : CommandAnswer
  /-- Whether the editor should request its hints again. -/
  refreshHints : Bool := false
  progress : List ReportProgress := []
  asked : List CompileRequest := []
  server : Server

namespace Server

/-- The open document whose address is the first of the arguments. -/
def documentOf (server : Server) (arguments : List Json) :
    Except CommandError (Uri × DocumentSession) :=
  match arguments.head?.bind Json.str? with
  | none => .error .noUri
  | some text =>
    match Uri.ofString? text with
    | none => .error (.invalidUri text)
    | some uri =>
      match server.document? uri with
      | none => .error .notOpen
      | some document => .ok (uri, document)

/-- The code that the compiler makes of an open document. -/
def compiledOutput (around : Surroundings) (server : Server) (arguments : List Json) :
    CommandStep :=
  match server.documentOf arguments with
  | .error e => { answer := .error e, server }
  | .ok (uri, document) =>
    let step := server.checker.compiledOutput around.tree around.compiler document.text uri.fileName
      server.pluginLocation
    { answer := match step.answer with
        | .ok (.ok code) => .ok [("code", .str code)]
        | .ok (.error e) => .error (.compiler e)
        | .error breakdown => .error (.compilerBroke around.task breakdown)
      asked := step.asked
      server := { server with checker := step.checker } }

/-- A report of the root that the arguments name, or of the workspace. -/
def report (around : Surroundings) (server : Server) (arguments : List Json) : CommandStep :=
  match ReportRequest.ofArguments arguments with
  | .error e => { answer := .error (.badOptions e), server }
  | .ok request =>
    match request.root.or server.session.root with
    | none => { answer := .error .noFolder, server }
    | some root =>
      let run := generateReport around.tree around.compiler server.checker around.reports
        (request.options root server.settings)
      { answer := match run.answer with
          | .ok (.ok report) => .ok [("report", report.toJson)]
          | .ok (.error e) => .error (.report e)
          | .error breakdown => .error (.reportBroke around.task breakdown)
        progress := request.told run.progress
        asked := run.asked
        server := { server with checker := run.checker } }

/-- Carries out a command. -/
def execute (around : Surroundings) (server : Server) (command : Command) (arguments : List Json) :
    CommandStep :=
  match command with
  | .activate =>
    { answer := .ok [("activated", .bool true)], refreshHints := true
      server := server.activate true }
  | .deactivate =>
    { answer := .ok [("activated", .bool false)], refreshHints := true
      server := server.activate false }
  | .checkOnce => { answer := .ok [], refreshHints := true, server }
  | .compiledOutput => server.compiledOutput around arguments
  | .generateReport => server.report around arguments

/-- Carries out the command of a name. -/
def executeNamed (around : Surroundings) (server : Server) (name : String)
    (arguments : List Json) : CommandStep :=
  match Command.ofName? name with
  | none => { answer := .error .unknown, server }
  | some command => server.execute around command arguments

end Server

end MemoHints
