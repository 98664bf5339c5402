import Lisplet.Command

/-! The command line. -/
namespace Lisplet.Main

/-- A directory can be opened and fails only when it is read, which leaves no file name. -/
def fileError : IO.Error → Command.FileError
  | .inappropriateType none .. => .directory
  | .inappropriateType (some _) .. => .notDirectory
  | .invalidArgument .. => .nameTooLong
  | .permissionDenied .. => .denied
  | _ => .missing

/-- What reading each argument as a file gives. -/
def readFiles (args : List String) :
    IO (List (List UInt8 × Except Command.FileError (List UInt8))) :=
  args.mapM fun (arg : String) => do
    match ← (IO.FS.readBinFile arg).toBaseIO with
    | .ok bytes => return (Text.Utf8.bytes arg, .ok bytes.toList)
    | .error e => return (Text.Utf8.bytes arg, .error (fileError e))

/-- The next line without its end, or the end of the input. -/
def readLine (stdin : IO.FS.Stream) : IO Session.Input := do
  let line ← stdin.getLine
  if line.isEmpty then return .endOfInput
  return .line (Text.Utf8.bytes (if line.endsWith '\n' then line.dropEnd 1 else line).toString)

partial def converse (stdin stdout stderr : IO.FS.Stream) (prompt : Session.Prompt)
    (session : Session) : IO (Option String) := do
  stdout.putStr prompt.text
  stdout.flush
  let (session, response, ending) := session.step (← readLine stdin)
  stdout.putStr response.out
  stdout.flush
  stderr.putStr response.err
  match ending with
  | none => converse stdin stdout stderr (response.prompts.getLastD prompt) session
  | some .finished => return none
  | some (.failed message) => return some message
  | some (.broken f) => return some (f.message?.getD "")

end Lisplet.Main

open Lisplet in
def main (args : List String) : IO UInt32 := do
  let stdout ← IO.getStdout
  let stderr ← IO.getStderr
  let files ← Main.readFiles args
  let file (arg : List UInt8) := (files.lookup arg).getD (.error .missing)
  let failure ← match Command.request file (args.map Text.Utf8.bytes) with
    | .error failure => pure (some failure.message)
    | .ok (.session settings) =>
      Main.converse (← IO.getStdin) stdout stderr .fresh (.start settings)
    | .ok (.run settings sources) => do
      let outcome := Command.runNew settings sources
      stdout.putStr outcome.out
      stdout.flush
      stderr.putStr outcome.err
      pure (outcome.failure.map Command.Failure.message)
  match failure with
  | some message => do
    stderr.putStr (Session.errorLine message)
    return 1
  | none => return 0
