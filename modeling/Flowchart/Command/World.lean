import Flowchart.Files
import Flowchart.Json.Reader
import Flowchart.Render
import Flowchart.Source.Json
import Flowchart.Trace.Model

/-!
# What the command finds outside

The command works with files and with other programs: parsers, a language model, a program that
renders. A `World` holds them all. Whatever it asks of them may fail, and each way to fail has a place
of its own in a `World`, whether the command minds it or not.

## What is taken for granted

There is a standard output, though it may not take what is printed, and what the command writes to its
log is not lost. Whatever comes in is text: a path and an option are characters, and bytes that do not
spell any are an error of the reading.

## Answers as JSON

The answers of the other programs can be given as JSON: the parsers' under `parses`, the model's under
`llm`, and how the run of the rendering program ends under `process`. Where answers are given, they
tell how the run ends whatever its limit is, and nothing else goes wrong.
-/

namespace Flowchart

/-- The bytes that pairs of hexadecimal digits spell; another character counts as zero. -/
def bytesOfHex : List Char → List UInt8
  | a :: b :: cs =>
    let value (c : Char) : Nat := (Json.hexDigit? c).getD 0
    UInt8.ofNat (16 * value a + value b) :: bytesOfHex cs
  | _ => []

namespace Json

/-- The bytes in a value: those of a text, or those spelled in its field `hex`. -/
def bytes : Json → List UInt8
  | .str s => Text.Utf8.encode s.toList
  | j => bytesOfHex ((j.textPart? "hex").getD "").toList

end Json

/-- How a run ends: well unless something else is said. -/
def Run.ofJson (j : Json) : Run :=
  let message := (j.textPart? "message").getD ""
  match (j.textPart? "outcome").getD "ok" with
  | "missing" => .missing
  | "oserror" => .notStarted message
  | "timeout" => .unfinished
  | "exit" =>
    let output := match j.textPart? "output_hex" with
      | some digits => bytesOfHex digits.toList
      | none => ((j.part? "output").map Json.bytes).getD []
    .exited ((j.intPart? "code").getD 1) output
  | _ => .exited 0 []

/-- A model's reply: a failure if one is told, else the content. -/
def Trace.Reply.ofJson (j : Json) : Trace.Reply :=
  match j.textPart? "raises" with
  | some reason => .failed reason
  | none => .content (j.textPart? "content")

/-- A place to render in, where the run of a program ends as an answer tells. -/
def Workplace.ofAnswer (answer : Json) (directory scratch : String) : Workplace where
  directory := .ok directory
  scratch := { place := .ok scratch }
  run _ := .ofJson answer
  wait _ := .possible

namespace Command

/-- What the command finds outside; a renderer finds a part of it. -/
structure World extends Workplace where
  parsers : Parsers
  /-- What reading the standard input comes to, if there is one. -/
  input : Option (Except Failure (List UInt8))
  /-- Why the standard output does not take what is printed, if it does not. -/
  printing : Option Failure := none
  files : Files
  /-- A model of which questions can be asked, if there is a way to it, and what it answers. -/
  model : Trace.ModelOptions → Except Failure ((question : String) → Trace.Reply)
  /-- How many levels of an answer there is room for. -/
  maxHeight : Nat := Json.usualHeight

/-- A world in which other programs give the answers in a JSON value. -/
def World.ofAnswers (answers : Json) (input : List UInt8) (files : Files)
    (directory scratch : String) : World where
  toWorkplace := .ofAnswer ((answers.part? "process").getD .null) directory scratch
  parsers := .ofJson (answers.listPart "parses")
  input := some (.ok input)
  files := files
  model _ := .ok fun _ => .ofJson ((answers.part? "llm").getD .null)

/-- Why there is no source text. -/
inductive SourceLoss where
  /-- It is to come from the standard input, and there is none. -/
  | noInput
  | unread (message : String)

/-- The source text of a path; a hyphen is the standard input. -/
def World.source (w : World) (path : String) : Except SourceLoss String := do
  let bytes ←
    if path = "-" then
      match w.input with
      | none => throw .noInput
      | some input => input.mapError fun failure => .unread failure.reason
    else (w.files.read path).mapError fun fault => .unread (fault.message path)
  (textOf bytes).mapError fun fault => .unread fault.message

end Command

end Flowchart
