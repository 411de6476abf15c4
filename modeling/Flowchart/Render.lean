import Flowchart.Decimal.Shortest
import Flowchart.Files
import Flowchart.Log
import Flowchart.Settings
import Flowchart.Text.Blank

/-!
# Rendering

A diagram becomes a drawing through another program. The program is started on a file with the diagram
and makes a file with the drawing; a `Run` says how that ended. There are two ways to have a diagram
rendered: into a file of the caller's choice (`Renderer.toFile`), or as text (`Renderer.toText`). The
second does not wait in place: when the time is over, the program is killed.

## What a renderer finds outside

The calls that a rendering makes are gathered in a `Workplace`, each with an outcome of its own: where
the working directory is, a directory for passing files that is made, written into and taken away, how
a program runs, and how long it can be waited for.

## Faults and breakdowns

A rendering can fail in two ways. A `RenderFault` is told to the caller as the reason why there is no
drawing. A `Breakdown` is what nothing in a renderer takes for such a reason: it leaves the renderer as
it is. Only the start of the program and its way of ending are watched for faults; whatever goes wrong
before, between and after them is a breakdown.
-/

namespace Flowchart

/-! ### Programs -/

/-- How the run of a program ends. -/
inductive Run where
  /-- There is no such program. -/
  | missing
  /-- It cannot be started. -/
  | notStarted (reason : String)
  /-- It is not done in time. -/
  | unfinished
  | exited (code : Int) (output : List UInt8)
  deriving DecidableEq, Repr

/-- What comes of waiting for a program that was started, for some time at most. -/
inductive Wait where
  /-- It is waited for until it is done or the time is over. -/
  | possible
  /-- The time is over before it begins. -/
  | over
  /-- There is no way to wait that long. -/
  | refused (reason : String)
  deriving DecidableEq, Repr

namespace Wait

/-- The most thousandths of a second that one can wait in place. -/
def longest : Nat := 2147483647

/-- The bound of the clock, in the thousand millionth parts of a second that it counts. -/
def clockBound : Nat := Nat.pow 2 63

/-- Waiting in place, as the system does it: some whole number of thousandths of a second, so that
there has to be such a number, and a small one. -/
def inPlace (seconds : Float) : Wait :=
  match Decimal.Value.ofFloat seconds with
  | .nan => .refused "cannot convert float NaN to integer"
  | .infinite true => .over
  | .infinite false => .refused "cannot convert float infinity to integer"
  | .finite ⟨negative, m, q⟩ =>
    let (num, den) := Decimal.scaled m 2 q
    if negative || m = 0 then .over
    else if clockBound * den ≤ num * Nat.pow 10 9 then
      .refused "timestamp too large to convert to C _PyTime_t"
    else if longest * den < num * 1000 then .refused "timeout is too large"
    else .possible

/-- Waiting aside, while other work goes on: any time can be waited for, and time that is no number is
over at once. -/
def aside (seconds : Float) : Wait := if 0.0 < seconds then .possible else .over

end Wait

/-! ### What is outside -/

/-- A directory for passing files to a program, made for one rendering. -/
structure Scratch where
  /-- Where it is, if it can be made. -/
  place : Except Failure String
  /-- Why the diagram cannot be written there, if it cannot. -/
  writing : Option Failure := none
  /-- Why it cannot be taken away in the end, if it cannot. -/
  removal : Option Failure := none

/-- What a renderer finds outside. -/
structure Workplace where
  /-- The working directory, if it is still there. -/
  directory : Except Failure String
  scratch : Scratch
  /-- How the run of a command ends. -/
  run : (command : List String) → Run
  /-- What comes of waiting in place for some seconds. -/
  wait : (seconds : Float) → Wait

/-! ### Results -/

/-- Why there is no drawing. -/
inductive RenderFault where
  | emptyDiagram
  | missing (program : String)
  | notStarted (reason : String)
  | timedOut (seconds : Float)
  /-- The program failed after some output. -/
  | rejected (output : List Char)
  /-- The program left no drawing at a path. -/
  | noDrawing (path : String)

/-- How much of a failed program's output is reported. -/
def RenderFault.outputLimit : Nat := 200

/-- The wording of a fault. -/
def RenderFault.message : RenderFault → String
  | .emptyDiagram => "Empty flowchart"
  | .missing program => "Mermaid CLI not found: " ++ program
  | .notStarted reason => "Mermaid CLI could not start: " ++ reason
  | .timedOut seconds =>
    "Mermaid render timed out after " ++ Decimal.wholeText (.ofFloat seconds) ++ "s"
  | .rejected output =>
    "Mermaid render failed: " ++ String.ofList (output.take outputLimit)
  | .noDrawing path => "Mermaid CLI produced no output: " ++ FileFault.missing.message path

/-- Whether a program was given up. -/
def RenderFault.isTimeout : RenderFault → Bool
  | .timedOut _ => true
  | _ => false

/-- What leaves a renderer in the middle of its work. -/
inductive Breakdown where
  /-- The working directory is gone. -/
  | noDirectory (failure : Failure)
  /-- There is no directory for passing files, -/
  | noScratch (failure : Failure)
  /-- or the diagram cannot be written there, -/
  | notWritten (failure : Failure)
  /-- or it cannot be taken away. -/
  | notRemoved (failure : Failure)
  /-- A word of the command holds a character that words cannot hold. -/
  | badWord
  /-- The program was started and cannot be waited for. -/
  | noWait (reason : String)
  deriving DecidableEq, Repr

/-- The wording of a breakdown. -/
def Breakdown.message : Breakdown → String
  | .noDirectory failure | .noScratch failure | .notWritten failure | .notRemoved failure =>
    failure.reason
  | .badWord => FileFault.badPath.message ""
  | .noWait reason => reason

/-- A render: the command and the diagram it was started on, if it came to that, whether the program
was killed, and the result. -/
structure Rendering where
  started : Option (List String × String) := none
  killed : Bool := false
  result : Except RenderFault String

/-- Makes a directory for passing files, puts the diagram there for `work`, and takes the directory
away, whatever came of the work. -/
def Scratch.use (s : Scratch) (work : (place : String) → Logged (Except Breakdown Rendering)) :
    Logged (Except Breakdown Rendering) :=
  match s.place with
  | .error failure => return .error (.noScratch failure)
  | .ok place => do
    let done ← match s.writing with
      | some failure => pure (.error (.notWritten failure))
      | none => work place
    match s.removal with
    | some failure => return .error (.notRemoved failure)
    | none => return done

/-! ### Renderers -/

/-- A program that renders, and after how many seconds a render is given up. -/
structure Renderer where
  program : String
  /-- No number of seconds is a limit that is of no use. -/
  timeout : Option Float

namespace Renderer

/-- A renderer; an empty program or none stands for the one in the settings. -/
def ofSettings (s : Settings) (program : Option String) (timeout : Option (Option Float)) :
    Renderer where
  program := match program with
    | some p => if p.isEmpty then s.renderProgram else p
    | none => s.renderProgram
  timeout := timeout.getD s.renderTimeout

variable (r : Renderer)

/-- The command that renders the file `source` into the file `target`. -/
def command (source target : String) : List String :=
  [r.program, "-i", source, "-o", target, "-b", "transparent"]

/-- Where the diagram is put in a directory for passing files. -/
def sourceIn (directory : String) : String := directory ++ "/diagram.mmd"

/-- Whether a word cannot be handed to a program: it holds the character that ends one. -/
def isBadWord (word : String) : Bool := word.toList.contains '\x00'

/-- What is wrong with the way the run of a program ended, if anything is. A program that was started
is waited for; if the limit is of no use, `noLimit` says why. -/
def fault? (noLimit : String) (wait : Float → Wait) : Run → Except Breakdown (Option RenderFault)
  | .missing => .ok (some (.missing r.program))
  | .notStarted reason => .ok (some (.notStarted reason))
  | run =>
    match r.timeout with
    | none => .error (.noWait noLimit)
    | some seconds =>
      match wait seconds, run with
      | .refused reason, _ => .error (.noWait reason)
      | .possible, .exited code output =>
        .ok (if code = 0 then none else some (.rejected (Text.Utf8.decodeReplacing output)))
      | _, _ => .ok (some (.timedOut seconds))

/-- What is wrong with the way a command ended, if anything is; the program is started only if each
word can be handed to it. -/
def check (p : Workplace) (noLimit : String) (wait : Float → Wait) (command : List String) :
    Except Breakdown (Option RenderFault) :=
  if command.any isBadWord then .error .badWord else r.fault? noLimit wait (p.run command)

/-- Why a limit that is no number is of no use to one who waits in place. -/
def noLimitInPlace : String := "unsupported operand type(s) for +: 'float' and 'list'"

/-- Renders a diagram into the file of a path. -/
def toFile (p : Workplace) (diagram path : String) : Logged (Except Breakdown Rendering) :=
  if isBlankText diagram then return .ok { result := .error .emptyDiagram }
  else
    match absolutePath p.directory path with
    | .error failure => return .error (.noDirectory failure)
    | .ok target =>
      p.scratch.use fun place => do
        let command := r.command (sourceIn place) target
        match r.check p noLimitInPlace p.wait command with
        | .error breakdown => return .error breakdown
        | .ok (some fault) =>
          return .ok { started := some (command, diagram), result := .error fault }
        | .ok none =>
          Logged.write .debug ("[RENDER] " ++ target ++ " in " ++ elapsed)
          return .ok { started := some (command, diagram), result := .ok target }

/-- Why a limit that is no number is of no use to one who waits aside. -/
def noLimitAside : String := "'<=' not supported between instances of 'list' and 'int'"

/-- Renders a diagram to text; `drawing` is what the program wrote to its file, if it wrote one. -/
def toText (p : Workplace) (diagram : String) (drawing : Option String) :
    Logged (Except Breakdown Rendering) :=
  if isBlankText diagram then return .ok { result := .error .emptyDiagram }
  else
    p.scratch.use fun place =>
      let target := place ++ "/diagram.svg"
      let command := r.command (sourceIn place) target
      let started := some (command, diagram)
      match r.check p noLimitAside .aside command with
      | .error breakdown => return .error breakdown
      | .ok (some fault) =>
        return .ok { started := started, killed := fault.isTimeout, result := .error fault }
      | .ok none =>
        match drawing with
        | none => return .ok { started := started, result := .error (.noDrawing target) }
        | some text =>
          return .ok
            { started := started, result := .ok (String.ofList (Text.universal text.toList)) }

end Renderer

end Flowchart
