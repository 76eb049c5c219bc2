import MemoHints.Client
import MemoHints.Compiler.Checker
import MemoHints.Debounce
import MemoHints.Document.Store
import MemoHints.Hint.Basic
import MemoHints.Report.Basic
import MemoHints.Uri.Basic

/-!
# The server

A server knows the open documents, the settings and the editor at its other end, and answers with
the hints of a document. Requests for hints come with every keystroke, so they wait for a quiet
period and never longer than a limit; hovers are answered at once. Both ask the same checker, so
they agree.

Time is a number of milliseconds that the server is told about; compiling takes none of it. Requests
whose quiet periods end at one moment are worked on side by side: while one compiles, the next
already looks for its plugin.
-/

namespace MemoHints

/-- What a server has around it. -/
structure Surroundings where
  tree : FileTree
  compiler : Compiler
  reports : ReportContext
  /-- How messages name a task that broke down. -/
  task : String

/-- How long a server waits, in milliseconds. -/
structure ServerConfig where
  debounce : Nat := Debouncer.defaultDelay
  hintTimeout : Nat := 5000
deriving DecidableEq

/-- The editor at the other end. -/
structure ClientSession where
  root : Option FilePath := none
  profile : ClientProfile := {}
  markup : Markup := .markdown
deriving DecidableEq

/-- All that the hints of a document depend on besides the compiler and the files. -/
structure HintJob where
  text : String
  filename : String
  location : PluginLocation
  config : HintConfig

/-- The hints of a job, with its own events still to be kept. -/
def HintJob.examine (around : Surroundings) (checker : Checker) (draft : Option Draft)
    (job : HintJob) : CheckerStep (Guarded (List Hint)) :=
  let step := checker.examine around.tree around.compiler draft job.text job.filename job.location
  { step with answer := step.answer.map fun result => project job.text result job.config }

/-- The hints of a job. -/
def HintJob.run (around : Surroundings) (checker : Checker) (job : HintJob) :
    CheckerStep (Guarded (List Hint)) :=
  let step := checker.check around.tree around.compiler job.text job.filename job.location
  { step with answer := step.answer.map fun result => project job.text result job.config }

structure Server where
  documents : DocumentStore := {}
  checker : Checker := {}
  debouncer : Debouncer HintJob (List Hint) := {}
  settings : Settings := {}
  session : ClientSession := {}
  activated : Bool := true
  config : ServerConfig := {}
  now : Nat := 0

/-- The answer of a server, the requests that the compiler got for it, and the server after it. -/
structure ServerStep (α : Type) where
  answer : α
  asked : List CompileRequest := []
  server : Server

namespace Server

/-- The languages of documents that have hints. -/
def supportedLanguages : List String :=
  ["javascript", "typescript", "javascriptreact", "typescriptreact"]

/-- An editor introduces itself. -/
def welcome (server : Server) (session : ClientSession) : Server := { server with session }

/-- The document at an address was opened or changed. -/
def sync (server : Server) (uri : Uri) (languageId : String) (version : Int) (text : String) :
    SyncAction × Server :=
  let (action, documents) := server.documents.sync uri.toText languageId version text
  (action, { server with documents })

/-- The document at an address was closed. -/
def close (server : Server) (uri : Uri) : Server :=
  { server with documents := server.documents.close uri.toText }

/-- The open document at an address. -/
def document? (server : Server) (uri : Uri) : Option DocumentSession :=
  server.documents.get? uri.toText

/-- Takes new settings, and tells whether they move the plugin. Results made with the plugin at
another place are forgotten. -/
def applySettings (server : Server) (settings : Settings) : Bool × Server :=
  let moved := server.settings.pluginPath ≠ settings.pluginPath
  (moved, { server with
    settings
    checker := if moved then server.checker.clearCache else server.checker })

/-- Turns hints on or off. -/
def activate (server : Server) (on : Bool) : Server := { server with activated := on }

/-- Where the plugin is looked for. -/
def pluginLocation (server : Server) : PluginLocation :=
  ⟨server.session.root, .ofString server.settings.pluginPath⟩

/-- What the hints of an address take; none when they are turned off, or the document is not open,
or it is in another language. -/
def hintJob? (server : Server) (uri : Uri) : Option HintJob :=
  if server.activated then
    match server.document? uri with
    | none => none
    | some document =>
      if document.languageId ∈ supportedLanguages then
        some {
          text := document.text
          filename := uri.fileName
          location := server.pluginLocation
          config := .ofSettings server.settings server.session.markup server.session.profile
            uri.fileName }
      else none
  else none

/-- What the jobs of one moment share: the checker, what the last of them has made, and the requests
so far. -/
structure Workbench where
  checker : Checker
  draft : Option Draft := none
  asked : List CompileRequest := []

/-- Does a job that has waited. -/
def workOff (around : Surroundings) (job : HintJob) (bench : Workbench) :
    Option (List Hint) × Workbench :=
  let step := job.examine around bench.checker bench.draft
  (step.answer.toOption, ⟨step.checker, step.draft, bench.asked ++ step.asked⟩)

/-- Does the jobs whose quiet periods end at one moment. -/
def workMoment (around : Surroundings)
    (s : Debouncer HintJob (List Hint) × Checker × List CompileRequest) (moment : Nat) :
    Debouncer HintJob (List Hint) × Checker × List CompileRequest :=
  let (debouncer, _, bench) :=
    Debouncer.fireDue (workOff around) moment s.1 ⟨s.2.1, none, s.2.2⟩
  (debouncer, bench.checker.keepDraft bench.draft, bench.asked)

/-- Lets time pass. The answers are those of requests that someone waits for. -/
def elapse (around : Surroundings) (server : Server) (ms : Nat) :
    ServerStep (List (Nat × Option (List Hint))) :=
  let now := server.now + ms
  let (debouncer, checker, asked) :=
    (server.debouncer.dueMoments now).foldl (workMoment around)
      (server.debouncer, server.checker, [])
  let (answers, debouncer) := debouncer.deliver
  { answer := answers, asked, server := { server with debouncer, checker, now } }

/-- Enters a request for hints and gives it a number. A later one for the same address supersedes
it. There is no request where there is nothing to do. -/
def requestHints (server : Server) (uri : Uri) : Option Nat × Server :=
  match server.hintJob? uri with
  | none => (none, server)
  | some job =>
    let (number, debouncer) :=
      server.debouncer.schedule uri.toText job (server.now + server.config.debounce)
    (some number, { server with debouncer })

/-- Enters requests for hints one after the other. -/
def requestAll : Server → List Uri → List (Option Nat) × Server
  | server, [] => ([], server)
  | server, uri :: rest =>
    let (number, server) := server.requestHints uri
    let (numbers, server) := server.requestAll rest
    (number :: numbers, server)

/-- Nobody waits for these requests any longer. -/
def giveUp (server : Server) (numbers : List Nat) : Server :=
  { server with debouncer := numbers.foldl Debouncer.abandon server.debouncer }

/-- How long a request for hints takes: the quiet period, unless the limit comes first. -/
def waitingTime (config : ServerConfig) : Nat := min config.debounce config.hintTimeout

/-- Requests for hints at one moment. A request that does not come to its turn within the limit has
no answer, and neither has one that is superseded or breaks down. -/
def hintsTogether (around : Surroundings) (server : Server) (uris : List Uri) :
    ServerStep (List (Option (List Hint))) :=
  let (numbers, server) := server.requestAll uris
  let entered := numbers.filterMap id
  if entered.isEmpty then { answer := numbers.map fun _ => none, server }
  else
    let server :=
      if server.config.hintTimeout ≤ server.config.debounce then server.giveUp entered else server
    let step := elapse around server (waitingTime server.config)
    { step with
      answer := numbers.map fun number => (number.bind fun n => step.answer.lookup n).join }

/-- The hints of an address. -/
def hints (around : Surroundings) (server : Server) (uri : Uri) :
    ServerStep (Option (List Hint)) :=
  let step := server.hintsTogether around [uri]
  { step with answer := step.answer.head?.join }

/-- The hints of an address that stand on the lines from one to another. -/
def hintsBetween (around : Surroundings) (server : Server) (uri : Uri) (first last : Nat) :
    ServerStep (Option (List Hint)) :=
  let step := server.hints around uri
  { step with answer := step.answer.map fun hints =>
      hints.filter fun hint => first ≤ hint.position.line && hint.position.line ≤ last }

/-- The tooltip on a line of an address. It does not wait. -/
def hover (around : Surroundings) (server : Server) (uri : Uri) (line : Nat) :
    ServerStep (Option Tooltip) :=
  match server.hintJob? uri with
  | none => { answer := none, server }
  | some job =>
    let step := job.run around server.checker
    { answer := match step.answer with
        | .ok hints => hoverAt hints line
        | .error _ => none
      asked := step.asked
      server := { server with checker := step.checker } }

end Server

end MemoHints
