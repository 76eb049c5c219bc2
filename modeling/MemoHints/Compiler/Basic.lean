import MemoHints.Event.Basic
import MemoHints.Plugin.Resolution

/-!
# Runs of the compiler

A compiler answers a request with generated code and events, or fails with a reason that is shown to
the user; or it breaks down, which ends whatever asked for it.
-/

namespace MemoHints

/-- Whether code is wanted or events alone. -/
inductive EmitMode where
  | diagnostics
  | emit
deriving DecidableEq

def EmitMode.name : EmitMode → String
  | .diagnostics => "diagnostics"
  | .emit => "emit"

/-- What the compiler is asked. -/
structure CompileRequest where
  source : String
  filename : String
  plugin : FilePath
  root : Option FilePath
  mode : EmitMode
deriving DecidableEq

/-- What the compiler made. -/
structure CompileOutput where
  code : Option String := none
  events : List DiagnosticEvent := []

/-- Why there is no result. -/
inductive CompileError where
  | pluginNotFound (attempts : List ResolveAttempt)
  | spawn (program message : String)
  /-- The compiler itself gave up. -/
  | gaveUp (message : String)
  | invalidOutput (message : String)
  | noOutput
deriving DecidableEq

def CompileError.message : CompileError → String
  | .pluginNotFound attempts =>
    "babel-plugin-react-compiler is not available" ++
      String.join (attempts.map fun attempt => "; " ++ attempt.display)
  | .spawn program message => "Could not run " ++ program ++ ": " ++ message
  | .gaveUp message =>
    "Failed to compile the file. Please check the file content. " ++ message
  | .invalidOutput message => message
  | .noOutput => "Compilation produced no output"

/-- A breakdown with its words. -/
structure Breakdown where
  text : String
deriving DecidableEq

/-- What comes of something that may break down. -/
abbrev Guarded (α : Type) := Except Breakdown α

/-- Something that compiles. -/
abbrev Compiler := CompileRequest → Guarded (Except CompileError CompileOutput)

/-- The result in an output, which must have code. -/
def CompileOutput.result (output : CompileOutput) : Except CompileError CompileResult :=
  match output.code with
  | none => .error .noOutput
  | some _ => .ok (CompileResult.ofEvents output.events)

/-- The code in an output. -/
def CompileOutput.generated (output : CompileOutput) : Except CompileError String :=
  match output.code with
  | none => .error .noOutput
  | some code => .ok code

namespace Compiler

/-- Compiles for the events. -/
def diagnose (compiler : Compiler) (source filename : String) (plugin : FilePath)
    (root : Option FilePath) : Guarded (Except CompileError CompileResult) :=
  (compiler ⟨source, filename, plugin, root, .diagnostics⟩).map (·.bind (·.result))

/-- Compiles for the code. -/
def generate (compiler : Compiler) (source filename : String) (plugin : FilePath)
    (root : Option FilePath) : Guarded (Except CompileError String) :=
  (compiler ⟨source, filename, plugin, root, .emit⟩).map (·.bind (·.generated))

end Compiler

end MemoHints
