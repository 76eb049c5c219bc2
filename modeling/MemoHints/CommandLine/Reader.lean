import MemoHints.CommandLine.Grammar

/-!
# Reading command lines

A command line has flags of its own, then a command with its options. Editors start the program
without a command, so one that lacks it is read as if it named the server.
-/

namespace MemoHints.CommandLine

/-- The commands besides `help`. -/
inductive CommandName where
  | lsp
  | report
deriving DecidableEq

namespace CommandName

def name : CommandName → String
  | .lsp => "lsp"
  | .report => "report"

def ofName? : String → Option CommandName
  | "lsp" => some .lsp
  | "report" => some .report
  | _ => none

/-- What follows a command. -/
def grammar : CommandName → Grammar
  | .lsp => { flags := [.verbose, .quiet, .stdio, .help], settings := [.node, .bundledPlugin] }
  | .report =>
    { flags := [.verbose, .quiet, .help]
      settings := [.pluginPath, .excludeDir, .extension, .maxConcurrency, .node, .bundledPlugin]
      takesRoot := true }

end CommandName

/-- What stands before a command. -/
def topGrammar : Grammar :=
  { flags := [.verbose, .quiet, .help, .version], commands := ["lsp", "report", "help"] }

/-- The variable that names the bundled plugin when no option does. -/
def bundledVariable : String := "REACT_COMPILER_MARKER_BUNDLED_PLUGIN"

/-- Louder and quieter exclude each other on one level. -/
def Given.checked (given : Given) : Except UsageError Given :=
  if 0 < given.verbose ∧ 0 < given.quiet then .error (.conflict Flag.quiet.name) else .ok given

/-- Reads what follows a command. -/
def readCommand (environment : List (String × String)) (command : CommandName)
    (words : List String) : Except UsageError Given := do
  let given ← words.foldlM command.grammar.take {}
  let given ← given.settle
  let given ← match environment.lookup bundledVariable with
    | some value => if given.has .bundledPlugin then .ok given else given.add .bundledPlugin value
    | none => .ok given
  given.checked

/-- What follows `help` is at most the name of one command. -/
def helpOn : List String → UsageError
  | [] => .help
  | word :: rest =>
    if word ∈ topGrammar.commands then
      match rest with
      | [] => .help
      | stray :: _ => .unknownCommand stray
    else .unknownCommand word

/-- Reads the flags before the command, and the command. -/
def readTop (environment : List (String × String)) :
    Given → List String → Except UsageError (Given × Option (CommandName × Given))
  | given, [] => .ok (given, none)
  | given, word :: rest =>
    if !given.onlyWords && word = "help" then .error (helpOn rest)
    else
      match if given.onlyWords then none else CommandName.ofName? word with
      | some command => do
        let inner ← readCommand environment command rest
        return (given, some (command, inner))
      | none => do readTop environment (← topGrammar.take given word) rest

/-- The number of times that a flag counts: as often as it follows the command, and if it does not,
as often as it comes before. -/
def innermost (outer inner : Nat) : Nat := if 0 < inner then inner else outer

/-- What the given options mean. -/
def invocation (outer : Given) (command : CommandName) (given : Given) : Invocation :=
  { level := .ofFlags (innermost outer.verbose given.verbose) (innermost outer.quiet given.quiet)
    compiler :=
      { node := .ofString ((given.value? .node).getD "node")
        bundled := (given.value? .bundledPlugin).map .ofString }
    order := match command with
      | .lsp => .serve given.stdio
      | .report =>
        let plain : ReportOrder := {}
        .report {
          root := ((given.value? .root).map .ofString).getD plain.root
          pluginPath := (given.value? .pluginPath).getD plain.pluginPath
          excludeDirs := given.valuesOf .excludeDir
          extensions := given.valuesOf .extension
          maxConcurrency := (given.value? .maxConcurrency).bind Text.natural? } }

/-- Reads a command line that must have a command. -/
def readStrict (environment : List (String × String)) (words : List String) :
    Except UsageError Invocation := do
  match ← readTop environment {} words with
  | (_, none) => .error .noCommand
  | (outer, some (command, given)) => return invocation (← outer.checked) command given

/-- Whether a word is a flag that stands before the command. -/
def isLeading (word : String) : Bool :=
  word ∈ ["-v", "-vv", "-vvv", "-vvvv", "-q", "-qq", "-qqq", "-qqqq", "--verbose", "--quiet", "-h",
    "--help", "-V", "--version"]

/-- Whether a command line that was refused may be one without its command. -/
def mayLackCommand (e : UsageError) (words : List String) : Bool :=
  match e with
  | .noCommand => true
  | .unknownArgument _ => words.any (!isLeading ·)
  | _ => false

/-- The command line with the server named after its leading flags. -/
def withServer (words : List String) : List String :=
  words.takeWhile isLeading ++ CommandName.lsp.name :: words.dropWhile isLeading

/-- Reads a command line, given without the name of the program. -/
def read (environment : List (String × String)) (words : List String) :
    Except UsageError Invocation :=
  match readStrict environment words with
  | .ok found => .ok found
  | .error e =>
    if mayLackCommand e words then readStrict environment (withServer words) else .error e

/-- Puts an element before the one at an index. No element can be put beyond the end. -/
def insertAt? {α : Type} (index : Nat) (x : α) (xs : List α) : Option (List α) :=
  if index ≤ xs.length then some (xs.insertIdx index x) else none

/-- Where the server is named on a line that starts with the name of the program: after the leading
flags, and not beyond the end. -/
def serverIndex (arguments : List String) : Nat :=
  min (1 + ((arguments.drop 1).takeWhile isLeading).length) arguments.length

/-- Reads a line that starts with the name of the program; there is no result if the server is named
beyond the end. -/
def readArguments (environment : List (String × String)) (arguments : List String) :
    Option (Except UsageError Invocation) :=
  match readStrict environment (arguments.drop 1) with
  | .ok found => some (.ok found)
  | .error e =>
    if mayLackCommand e (arguments.drop 1) then
      (insertAt? (serverIndex arguments) CommandName.lsp.name arguments).map fun arguments =>
        readStrict environment (arguments.drop 1)
    else some (.error e)

end MemoHints.CommandLine
