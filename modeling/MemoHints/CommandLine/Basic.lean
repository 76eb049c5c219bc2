import MemoHints.Report.Basic

/-!
# Command lines

What the program can be told on its command line: to serve an editor, or to report on a folder. The
quieter and louder flags move the level of its log up and down.
-/

namespace MemoHints

/-- Which lines a log shows: those of its level and all graver ones. -/
inductive LogLevel where
  | off
  | error
  | warn
  | info
  | debug
  | trace
deriving DecidableEq

namespace LogLevel

def name : LogLevel → String
  | .off => "OFF"
  | .error => "ERROR"
  | .warn => "WARN"
  | .info => "INFO"
  | .debug => "DEBUG"
  | .trace => "TRACE"

/-- Levels as numbers; `off` is the least. -/
def rank : LogLevel → Nat
  | .off => 0
  | .error => 1
  | .warn => 2
  | .info => 3
  | .debug => 4
  | .trace => 5

/-- Whether a log of a level shows lines of another. -/
def shows (level line : LogLevel) : Bool := line.rank ≤ level.rank

/-- The level that flags make of `info`, each louder one a step up and each quieter one a step down.
The number of steps is kept in eight bits. -/
def ofFlags (louder quieter : Nat) : LogLevel :=
  match Int.bmod (2 + louder - quieter) 256 with
  | .negSucc _ => .off
  | .ofNat 0 => .error
  | .ofNat 1 => .warn
  | .ofNat 2 => .info
  | .ofNat 3 => .debug
  | .ofNat _ => .trace

end LogLevel

namespace CommandLine

/-- How the compiler is run. -/
structure CompilerOptions where
  node : FilePath := .ofString "node"
  bundled : Option FilePath := none
deriving DecidableEq

/-- What a report is made of. An empty list means the default. -/
structure ReportOrder where
  root : FilePath := .ofString "."
  pluginPath : String := "node_modules/babel-plugin-react-compiler"
  excludeDirs : List String := []
  extensions : List String := []
  maxConcurrency : Option Nat := none
deriving DecidableEq

/-- A list that was given. -/
def nonEmpty? (xs : List String) : Option (List String) := if xs.isEmpty then none else some xs

def ReportOrder.options (order : ReportOrder) : ReportOptions :=
  { root := order.root
    hint := .ofString order.pluginPath
    maxConcurrency := order.maxConcurrency
    includeExtensions := nonEmpty? order.extensions
    excludeDirs := nonEmpty? order.excludeDirs }

/-- What to do. -/
inductive Order where
  | serve (stdio : Bool)
  | report (order : ReportOrder)
deriving DecidableEq

/-- A command line that was understood. -/
structure Invocation where
  level : LogLevel
  compiler : CompilerOptions
  order : Order
deriving DecidableEq

/-- Why there is nothing to do. -/
inductive UsageError where
  /-- Help was asked for. -/
  | help
  /-- The version was asked for. -/
  | version
  | noCommand
  | unknownCommand (word : String)
  | unknownArgument (word : String)
  | missingValue (option : String)
  | badValue (option value : String)
  /-- An option came twice, or with one that excludes it. -/
  | conflict (option : String)
  /-- A flag came with a value. -/
  | unwantedValue (flag : String)
deriving DecidableEq

namespace UsageError

def message : UsageError → String
  | .help => "Usage: react-compiler-marker-lsp [lsp | report [ROOT]] [OPTIONS]"
  | .version => "react-compiler-marker 0.1.0"
  | .noCommand => "error: a command is required"
  | .unknownCommand word => "error: unrecognized subcommand '" ++ word ++ "'"
  | .unknownArgument word => "error: unexpected argument '" ++ word ++ "' found"
  | .missingValue option => "error: a value is required for '--" ++ option ++ "'"
  | .badValue option value =>
    "error: invalid value '" ++ value ++ "' for '--" ++ option ++ "'"
  | .conflict option => "error: the argument '--" ++ option ++ "' cannot be used here"
  | .unwantedValue flag => "error: unexpected value for '--" ++ flag ++ "'"

/-- Help and version are no failures. -/
def status : UsageError → Nat
  | .help | .version => 0
  | _ => 2

end UsageError

end CommandLine

end MemoHints
