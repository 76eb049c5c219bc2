import MemoHints.Json.Reader
import MemoHints.Program
import MemoHints.Protocol.Frame

/-!
# The command line program

Only streams and variables are at hand here, no files and no other programs. So the machine of these
runs has an empty tree, where no folder has sources and no plugin is found.
-/

namespace MemoHints.Main

/-- The machine that is at hand. -/
def machine (environment : List (String × String)) : Machine :=
  { tree := { root := .folder [], cwd := [] }
    environment
    namedPrograms := fun _ _ => .error Fault.notFound.message
    programAt := fun _ => { write := fun _ => .ok (), wait := fun _ => .ok { stdout := [] } }
    reports := { generatedAt := "" }
    task := "" }

/-- The variables that matter. -/
def environment : IO (List (String × String)) := do
  let found ← [CommandLine.bundledVariable, TraceFilter.variableName].mapM fun name => do
    return (← IO.getEnv name).map fun value => (name, value)
  return found.filterMap id

/-- The length in the header at the front of a stream; none at its end. -/
partial def readHeader (input : IO.FS.Stream) (length : Option Nat) : IO (Option Nat) := do
  let line ← input.getLine
  if line.isEmpty then return none
  if Protocol.Frame.isBlankLine line then return length
  readHeader input ((Protocol.Frame.length? line).or length)

/-- So many bytes from a stream. -/
partial def readBytes (input : IO.FS.Stream) (count : Nat) (done : ByteArray) : IO ByteArray := do
  if count ≤ done.size then return done
  let bytes ← input.read (USize.ofNat (count - done.size))
  if bytes.isEmpty then return done
  readBytes input count (done ++ bytes)

/-- Serves until the stream or the connection ends. Answers of the editor are passed over. -/
partial def serve (input output : IO.FS.Stream) (around : Surroundings)
    (connection : Protocol.Connection) : IO Unit := do
  let some length ← readHeader input none | return
  let bytes ← readBytes input length ByteArray.empty
  let message := (Json.readBytes .whole bytes.toList).filter fun v => (v.get? "method").isSome
  match message.bind Rpc.Request.ofJson? with
  | none => serve input output around connection
  | some request =>
    match connection.take around request with
    | none => return
    | some turn =>
      for v in turn.sent ++ turn.response.toList do
        output.putStr (Protocol.Frame.encode v)
      output.flush
      serve input output around turn.connection

end MemoHints.Main

open MemoHints in
def main (words : List String) : IO UInt32 := do
  match Program.start (Main.machine (← Main.environment)) words with
  | .serving around connection =>
    Main.serve (← IO.getStdin) (← IO.getStdout) around connection
    return 0
  | .ended result =>
    (← IO.getStdout).putStr result.stdout
    for line in result.stderr do
      (← IO.getStderr).putStrLn line
    return result.status.toUInt32
