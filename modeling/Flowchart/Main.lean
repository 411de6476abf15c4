import Flowchart.Command
import Flowchart.Json.Reader

/-!
# The program

The command as a program: it reads what `Command.perform` needs and does what that says. The answers of
other programs are read from the JSON file that the environment variable `FLOWCHART_ANSWERS` names.
-/

namespace Flowchart.Program

/-- The bytes of a stream up to its end; `read` are those read so far. -/
partial def readStream (stream : IO.FS.Stream) (read : ByteArray) : IO ByteArray := do
  let more ← stream.read 65536
  if more.isEmpty then return read else readStream stream (read ++ more)

/-- The fault that an error of the system stands for. -/
def faultOf : IO.Error → FileFault
  | .inappropriateType _ 21 _ => .directory
  | .inappropriateType _ _ _ => .notDirectory
  | .invalidArgument _ 36 _ => .nameTooLong
  | _ => .missing

/-- Reads a file. -/
def readFile (path : String) : IO (Except FileFault (List UInt8)) := do
  try
    return .ok (← IO.FS.readBinFile path).toList
  catch e => return .error (faultOf e)

/-- The answers of other programs. -/
def readAnswers : IO Json := do
  match ← IO.getEnv "FLOWCHART_ANSWERS" with
  | none => return .null
  | some path =>
    match ← readFile path with
    | .error _ => return .null
    | .ok bytes =>
      return (Json.read? Json.usualHeight (String.ofList (Text.Utf8.decodeReplacing bytes))).getD .null

/-- What there is for a command line: the standard input or the one file that it names. -/
def readWorld (arguments : List String) : IO Command.World := do
  let path := match Command.Options.read arguments with
    | .ok o => o.path
    | .error _ => ""
  let input ← if path == "-" then readStream (← IO.getStdin) .empty else pure .empty
  let file ← if path == "-" || path.isEmpty then pure (.error .missing) else readFile path
  let files : Files := { read := fun _ => file, create := .ok }
  return .ofAnswers (← readAnswers) input.toList files (toString (← IO.currentDir)) "/tmp"

/-- Does what a report says; gives the exit code. -/
def carryOut (report : Command.Report) (log : List String) : IO UInt32 := do
  let out ← IO.getStdout
  out.putStr report.output
  out.flush
  log.forM IO.eprintln
  match report.written with
  | some (path, text) => IO.FS.writeFile path text
  | none => pure ()
  return report.exitCode.toUInt32

end Flowchart.Program

open Flowchart in
/-- The program. -/
def main (arguments : List String) : IO UInt32 := do
  let world ← Program.readWorld arguments
  match Command.perform world arguments with
  | .stopped stop =>
    IO.eprintln "usage: flowchart -l LANGUAGE [options] PATH"
    return stop.exitCode.toUInt32
  | .broken fault report log =>
    let _ ← Program.carryOut report log
    IO.eprintln fault.message
    return 1
  | .finished report log => Program.carryOut report log
