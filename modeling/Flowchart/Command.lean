import Flowchart.Command.Options
import Flowchart.Command.World
import Flowchart.Compile
import Flowchart.Graph.Json

/-!
# The command

What the command does with its options: it reads a source text, prints its diagram or its graph, and
on request has the diagram rendered and the program traced. Everything it needs from outside is in a
`World`; what it does to the outside is in a `Report`, apart from the log.

## How it ends

An error that has a message of its own ends the command with exit code 1. Those are the errors it looks
out for: a language it does not know, a source text that cannot be read, an input without an equals
sign, a diagram that is empty, and a drawing that its renderer does not make.

A `Fault` is an error that nothing looks out for. It leaves the command where it stands, without an exit
code; what was done up to there is in the report all the same.
-/

namespace Flowchart.Command

/-- What the command did. -/
structure Report where
  exitCode : Nat := 0
  output : String := ""
  /-- The command that was started to render. -/
  started : Option (List String) := none
  /-- The model that was asked, and the question. -/
  asked : Option (Trace.ModelOptions × Option String) := none
  /-- The file that was made or written anew, and its text. -/
  written : Option (String × String) := none

/-- What leaves the command without an exit code. -/
inductive Fault where
  /-- The source text is to come from the standard input, and there is none. -/
  | noInput
  /-- An input has no value. -/
  | emptyInput
  /-- The standard output does not take what is printed. -/
  | notPrinted (failure : Failure)
  /-- The renderer breaks down. -/
  | rendering (reason : Breakdown)
  /-- There is no way to the model. -/
  | noModel (failure : Failure)
  | overflow (reason : Overflow)
  /-- The file of the trace cannot be made, -/
  | file (path : String) (reason : FileFault)
  /-- or it was made and the trace cannot be written there. -/
  | notWritten (failure : Failure)

/-- The wording of a fault. -/
def Fault.message : Fault → String
  | .noInput => "'NoneType' object has no attribute 'read'"
  | .emptyInput => "'list' object has no attribute 'partition'"
  | .notPrinted failure | .noModel failure | .notWritten failure => failure.reason
  | .rendering reason => reason.message
  | .overflow reason => reason.message
  | .file path reason => reason.message path

/-- How the command ends: with a report, or where a fault left it. -/
abbrev Outcome := Except (Fault × Report) Report

/-- The settings under the options, for a language. -/
def Options.settings (o : Options) (l : Language) : Settings :=
  let d : Settings := {}
  let limit (mode : LabelMode) (default : Option Int) : Option Int :=
    if l.labelMode = mode then o.labelLimit.getD default else default
  { d with
    lenientLimit := limit .lenient d.lenientLimit
    strictLimit := limit .strict d.strictLimit
    renderProgram := o.renderProgram.getD d.renderProgram
    renderTimeout := o.renderTimeout.getD d.renderTimeout }

/-- Why an input cannot be read. -/
inductive InputFault where
  | noValue
  | noPair (text : String)

/-- The value of an input: a name, an equals sign and a value. -/
def readInput : Option String → Except InputFault (String × String)
  | none => .error .noValue
  | some pair =>
    let cs := pair.toList
    let name := cs.takeWhile (· != '=')
    if cs.contains '=' && !Text.allBlank name then
      .ok (String.ofList (Text.trim name), String.ofList (cs.drop (name.length + 1)))
    else .error (.noPair pair)

/-- The values of inputs, each name with its last value. -/
def readInputs (pairs : List (Option String)) : Except InputFault (List (String × Json)) := do
  let inputs ← pairs.mapM readInput
  return putAll (inputs.map fun (name, value) => (name, .str value))

/-- Ends the command with an error. -/
def fail (r : Report) (message : String) : Work Report := do
  Work.write .error ("[WARN] " ++ message)
  return { r with exitCode := 1 }

/-- What is printed for a graph and its diagram. -/
def Format.print (graph : Graph) (diagram : String) : Format → String
  | .diagram => diagram
  | .graph => graph.toJson.writeIndented 0 ++ "\n"

/-- Has the diagram rendered if that is asked for; says whether the command goes on. -/
def render (w : World) (o : Options) (s : Settings) (diagram : String) (r : Report) :
    Work (Except (Fault × Report) (Bool × Report)) := do
  match o.render.filter (!·.isEmpty) with
  | none => return .ok (true, r)
  | some target =>
    let renderer := Renderer.ofSettings {} (some s.renderProgram) (some s.renderTimeout)
    match ← Work.ofLogged (renderer.toFile w.toWorkplace diagram target) with
    | .error breakdown => return .error (.rendering breakdown, r)
    | .ok rendering =>
      let r := { r with started := rendering.started.map (·.1) }
      match rendering.result with
      | .error fault => return .ok (false, ← fail r fault.message)
      | .ok path =>
        Work.write .info ("[INFO] Rendered " ++ path)
        return .ok (true, r)

/-- Puts a trace into a file. -/
def save (w : World) (target : String) (steps : List Step) (r : Report) : Outcome :=
  let text := (Json.arr (steps.map Step.toReport)).writeIndented 0
  match w.files.create target with
  | .error reason => .error (.file target reason, r)
  | .ok path =>
    match w.files.write path text with
    | some failure => .error (.notWritten failure, r)
    | none => .ok { r with written := some (path, text) }

/-- Has the program traced if that is asked for, and puts the trace into a file. -/
def trace (w : World) (o : Options) (code label : String) (inputs : List (String × Json)) (r : Report) :
    Work Outcome := do
  match o.trace.filter (!·.isEmpty) with
  | none => return .ok r
  | some target =>
    let options := Trace.ModelOptions.ofName {} o.model
    match w.model options with
    | .error failure => return .error (.noModel failure, r)
    | .ok ask =>
      let r := { r with asked := some (options, Trace.question? code label inputs) }
      match ← Work.ofLogged (Trace.trace w.maxHeight (some ask) code label inputs) with
      | .error reason => return .error (.overflow reason, r)
      | .ok steps =>
        Work.write .info
          ("[TIME] Traced " ++ toString steps.length ++ " steps in " ++ elapsed)
        return save w target steps r

/-- Draws a source text in a language, given with its label, and does what else is asked for. -/
def draw (w : World) (o : Options) (l : Language) (code label : String)
    (inputs : List (String × Json)) : Work Outcome := do
  let s := o.settings l
  let (graph, diagram) ← compile w.parsers s (some code) (some label)
  Work.write .info ("[TIME] Diagram generated in " ++ elapsed)
  if diagram.isEmpty then return .ok (← fail {} "Nothing to draw")
  else
    match w.printing with
    | some failure => return .error (.notPrinted failure, {})
    | none =>
      match ← render w o s diagram { output := o.format.print graph diagram } with
      | .error broken => return .error broken
      | .ok (goesOn, r) => if goesOn then trace w o code label inputs r else return .ok r

/-- What the command does in a language, given with its label. -/
def runIn (w : World) (o : Options) (l : Language) (label : String) : Work Outcome := do
  match w.source o.path with
  | .error .noInput => return .error (.noInput, {})
  | .error (.unread message) => return .ok (← fail {} message)
  | .ok code =>
    match readInputs o.inputs with
    | .error .noValue => return .error (.emptyInput, {})
    | .error (.noPair text) =>
      return .ok (← fail {} ("Expected NAME=VALUE, got " ++ quoted text))
    | .ok inputs => draw w o l code label inputs

/-- What the command does. -/
def run (w : World) (o : Options) : Work Outcome := do
  let label := o.language.getD ""
  match Language.resolve? label with
  | none => return .ok (← fail {} ("Unsupported language: " ++ o.language.getD "[]"))
  | some l => runIn w o l label

/-- The entries of the log that are shown: all or the grave ones. -/
def shown (verbose : Bool) (log : List Entry) : List String :=
  (log.filter fun e => verbose || e.level.isGrave).map (·.message)

/-- A command from its arguments: it is stopped, it is left where a fault arose, or it ends; in the last
two cases with what it did and the lines it wrote to the log. -/
inductive Ending where
  | stopped (reason : Stop)
  | broken (reason : Fault) (report : Report) (log : List String)
  | finished (report : Report) (log : List String)

/-- What the command does with a command line. -/
def perform (w : World) (arguments : List String) : Ending :=
  match Options.read arguments with
  | .error stop => .stopped stop
  | .ok o =>
    let r := run w o {}
    let log := shown o.verbose r.log
    match r.value.1 with
    | .error (fault, report) => .broken fault report log
    | .ok report => .finished report log

end Flowchart.Command
