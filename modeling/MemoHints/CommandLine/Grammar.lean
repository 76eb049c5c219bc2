import MemoHints.CommandLine.Basic
import MemoHints.Text.Natural

/-!
# The words of a command line

Words are taken from left to right. A word after an option that wants a value is its value unless it
looks like an option itself; values are checked when the next option or word is taken. After a
double dash all words are plain.
-/

namespace MemoHints.CommandLine

/-- What has no value. -/
inductive Flag where
  | verbose
  | quiet
  | stdio
  | help
  | version
deriving DecidableEq

namespace Flag

def name : Flag → String
  | .verbose => "verbose"
  | .quiet => "quiet"
  | .stdio => "stdio"
  | .help => "help"
  | .version => "version"

/-- The letter that stands for it. -/
def letter? : Flag → Option Char
  | .verbose => some 'v'
  | .quiet => some 'q'
  | .stdio => none
  | .help => some 'h'
  | .version => some 'V'

end Flag

/-- What has a value. The root is given by a plain word. -/
inductive Setting where
  | node
  | bundledPlugin
  | pluginPath
  | excludeDir
  | extension
  | maxConcurrency
  | root
deriving DecidableEq

namespace Setting

def name : Setting → String
  | .node => "node"
  | .bundledPlugin => "bundled-plugin"
  | .pluginPath => "plugin-path"
  | .excludeDir => "exclude-dir"
  | .extension => "extension"
  | .maxConcurrency => "max-concurrency"
  | .root => "root"

/-- Whether it may be given more than once. -/
def isList : Setting → Bool
  | .excludeDir | .extension => true
  | _ => false

/-- Why a value is refused, if it is. Paths are not empty. -/
def fault? (setting : Setting) (value : String) : Option UsageError :=
  match setting with
  | .node | .bundledPlugin | .root => if value = "" then some (.missingValue setting.name) else none
  | .maxConcurrency =>
    if (Text.natural? value).isSome then none else some (.badValue setting.name value)
  | _ => none

end Setting

/-- What may stand on one level of a command line. -/
structure Grammar where
  flags : List Flag
  settings : List Setting := []
  /-- Whether one plain word is taken as the root. -/
  takesRoot : Bool := false
  /-- The words that lead to another level. -/
  commands : List String := []

/-- What was given on one level. -/
structure Given where
  verbose : Nat := 0
  quiet : Nat := 0
  stdio : Bool := false
  /-- Settings with their values, in the order in which they came. -/
  values : List (Setting × String) := []
  /-- A setting that was named and not checked yet, and its value once that has come. -/
  pending : Option (Setting × Option String) := none
  /-- Whether all further words are plain. -/
  onlyWords : Bool := false
  hasRoot : Bool := false

/-- The largest count of a flag. -/
def maxCount : Nat := 255

namespace Given

/-- Whether a setting has been given. -/
def has (given : Given) (setting : Setting) : Bool := given.values.any (·.1 = setting)

/-- The values of a setting. -/
def valuesOf (given : Given) (setting : Setting) : List String :=
  (given.values.filter (·.1 = setting)).map (·.2)

/-- The value of a setting that is given once. -/
def value? (given : Given) (setting : Setting) : Option String := (given.valuesOf setting).head?

/-- Checks a setting with its value and adds it. -/
def add (given : Given) (setting : Setting) (value : String) : Except UsageError Given :=
  if given.has setting && !setting.isList then .error (.conflict setting.name)
  else
    match setting.fault? value with
    | some e => .error e
    | none => .ok { given with values := given.values ++ [(setting, value)] }

/-- Checks and adds the setting that is pending. -/
def settle (given : Given) : Except UsageError Given :=
  match given.pending with
  | none => .ok given
  | some (setting, none) => .error (.missingValue setting.name)
  | some (setting, some value) => { given with pending := none }.add setting value

/-- Takes a flag. -/
def raise (given : Given) (flag : Flag) : Except UsageError Given := do
  let given ← given.settle
  match flag with
  | .help => .error .help
  | .version => .error .version
  | .verbose => return { given with verbose := min (given.verbose + 1) maxCount }
  | .quiet => return { given with quiet := min (given.quiet + 1) maxCount }
  | .stdio =>
    if given.stdio then .error (.conflict flag.name) else return { given with stdio := true }

end Given

namespace Grammar

/-- Why a plain word is refused. -/
def strayWord (grammar : Grammar) (given : Given) (word : String) : UsageError :=
  if grammar.commands.isEmpty then .unknownArgument word
  else if given.onlyWords && word ∈ grammar.commands then .unknownArgument word
  else .unknownCommand word

/-- Takes a plain word. -/
def plainWord (grammar : Grammar) (given : Given) (word : String) : Except UsageError Given :=
  if grammar.takesRoot && !given.hasRoot then do
    let given ← given.settle
    return { given with pending := some (.root, some word), hasRoot := true }
  else .error (grammar.strayWord given word)

/-- Takes an option by its name, with the value that is attached to it. -/
def longOption (grammar : Grammar) (given : Given) (name : String) (value : Option String) :
    Except UsageError Given :=
  match grammar.flags.find? (·.name = name), grammar.settings.find? (·.name = name), value with
  | some flag, _, none => given.raise flag
  | some flag, _, some _ => .error (.unwantedValue flag.name)
  | none, some setting, none => do
    return { ← given.settle with pending := some (setting, none) }
  | none, some setting, some value => do (← given.settle).add setting value
  | none, none, _ => .error (.unknownArgument ("--" ++ name))

/-- Takes a letter. -/
def letter (grammar : Grammar) (given : Given) (c : Char) : Except UsageError Given :=
  match grammar.flags.find? (·.letter? = some c) with
  | some flag => given.raise flag
  | none => .error (.unknownArgument (String.ofList ['-', c]))

/-- A name and what follows the equals sign after it. -/
def splitEquals (cs : List Char) : String × Option String :=
  match cs.dropWhile (· ≠ '=') with
  | [] => (String.ofList cs, none)
  | _ :: value => (String.ofList (cs.takeWhile (· ≠ '=')), some (String.ofList value))

/-- Takes a word. -/
def take (grammar : Grammar) (given : Given) (word : String) : Except UsageError Given :=
  if given.onlyWords then grammar.plainWord given word
  else
    match word.toList with
    | ['-', '-'] => .ok { given with onlyWords := true }
    | '-' :: '-' :: cs =>
      let (name, value) := splitEquals cs
      grammar.longOption given name value
    | '-' :: c :: cs => (c :: cs).foldlM grammar.letter given
    | _ =>
      match given.pending with
      | some (setting, none) => .ok { given with pending := some (setting, some word) }
      | _ => grammar.plainWord given word

end Grammar

end MemoHints.CommandLine
