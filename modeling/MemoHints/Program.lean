import MemoHints.CommandLine.Reader
import MemoHints.Compiler.Node
import MemoHints.Json.Printer
import MemoHints.Protocol.Connection
import MemoHints.TraceFilter

/-!
# The program

A run of the program either ends by itself, with output and a status, or begins to serve a
connection. It depends on the command line and on the machine that it runs on.
-/

namespace MemoHints

/-- What a run depends on besides its command line. -/
structure Machine where
  tree : FileTree
  environment : List (String × String) := []
  /-- How programs are started that are looked for by name. -/
  namedPrograms : Node.Launcher
  /-- What the program at a path does. -/
  programAt : FilePath → Node.Child
  reports : ReportContext
  task : String

/-- What a run that ended leaves. -/
structure RunResult where
  stdout : String := ""
  /-- Messages on the other output. Each of them ends its last line. -/
  stderr : List String := []
  status : Nat := 0
deriving DecidableEq

/-- What becomes of a run. -/
inductive Run where
  | ended (result : RunResult)
  | serving (around : Surroundings) (connection : Protocol.Connection)

namespace Program

/-- How log lines are kept: none while traces are written, else those of a level. -/
structure Log where
  tracing : Bool
  level : LogLevel

/-- The line of a message in a log, if it is shown. -/
def Log.line (log : Log) (level : LogLevel) (message : String) : List String :=
  if !log.tracing && log.level.shows level then [level.name ++ ": " ++ message] else []

/-- The filter of traces. A blank one is none. -/
def traceFilter? (machine : Machine) : Option String :=
  (machine.environment.lookup TraceFilter.variableName).filter fun filter =>
    !(Text.trim filter.toList).isEmpty

/-- The warning about a filter that is none; traces are written all the same. -/
def filterWarning (machine : Machine) : List String :=
  match traceFilter? machine with
  | some filter =>
    if TraceFilter.isFilter filter then []
    else ["Ignoring invalid " ++ TraceFilter.variableName ++ "=" ++ filter ++
      ": invalid filter directive"]
  | none => []

/-- The compiler that a run uses. -/
def compiler (machine : Machine) (options : CommandLine.CompilerOptions) : Compiler :=
  Node.compile (.onFiles machine.tree machine.namedPrograms machine.programAt) options.node

/-- Writes a report. Files without a result become warnings. -/
def report (machine : Machine) (log : Log) (options : CommandLine.CompilerOptions)
    (order : CommandLine.ReportOrder) : RunResult :=
  let run := generateReport machine.tree (compiler machine options) { bundled := options.bundled }
    machine.reports order.options
  let scanned := run.progress.flatMap fun p =>
    log.line .info ("Scanned " ++ toString p.processed ++ "/" ++ toString p.total ++ " files")
  match run.answer with
  | .ok (.ok report) =>
    { stdout := report.toJson.pretty ++ "\n"
      stderr := scanned ++ report.errors.flatMap fun e =>
        log.line .warn (e.path ++ ": " ++ e.message) }
  | .ok (.error e) => { stderr := scanned ++ ["Error: " ++ e.message], status := 1 }
  | .error breakdown => { stderr := scanned ++ ["Error: " ++ breakdown.text], status := 101 }

/-- Begins to serve. -/
def serve (machine : Machine) (options : CommandLine.CompilerOptions) : Run :=
  .serving
    { tree := machine.tree, compiler := compiler machine options
      reports := machine.reports, task := machine.task }
    { server := { checker := { bundled := options.bundled } } }

/-- Runs the program with the words of its command line, which do not include its name. -/
def start (machine : Machine) (words : List String) : Run :=
  let warning := filterWarning machine
  match CommandLine.read machine.environment words with
  | .error e =>
    if e.status = 0 then .ended { stdout := e.message ++ "\n", stderr := warning }
    else .ended { stderr := warning ++ [e.message], status := e.status }
  | .ok invocation =>
    match invocation.order with
    | .serve _ => serve machine invocation.compiler
    | .report order =>
      let log : Log := ⟨(traceFilter? machine).isSome, invocation.level⟩
      let result := report machine log invocation.compiler order
      .ended { result with stderr := warning ++ result.stderr }

end Program

end MemoHints
