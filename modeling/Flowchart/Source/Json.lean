import Flowchart.Json.Basic
import Flowchart.Source.Abstract
import Flowchart.Source.Concrete
import Flowchart.Source.Parsers

/-!
# Syntax trees as JSON

Parsers are other programs; their trees come as JSON. A concrete node has its kind `t`, its bytes `s`
and `e`, its row `r`, the flags `n` (zero for a token), `m` (missing) and `h` (error), its field `f`
and its children `c`. An abstract node has its kind `t`, its position `p` and its parts by name. A
list of answers holds, for a grammar and perhaps for one text only, a tree or what went wrong; the
first that fits a question answers it.

Trees are read down to the height of their JSON value.
-/

namespace Flowchart

namespace Json

/-- A field that is there and not null. -/
def part? (j : Json) (name : String) : Option Json :=
  match j.field? name with
  | some .null => none
  | v => v

/-- A text field. -/
def textPart? (j : Json) (name : String) : Option String :=
  match j.field? name with
  | some (.str s) => some s
  | _ => none

/-- A field with a whole number. -/
def intPart? (j : Json) (name : String) : Option Int :=
  match j.field? name with
  | some (.int n) => some n
  | some (.bool b) => some (if b then 1 else 0)
  | _ => none

/-- A field with a number from zero on, zero if there is none. -/
def natPart (j : Json) (name : String) : Nat := ((j.intPart? name).getD 0).toNat

/-- The items of a list field, none if there is none. -/
def listPart (j : Json) (name : String) : List Json :=
  match j.field? name with
  | some (.arr items) => items
  | _ => []

/-- Whether a field is there and says yes. -/
def flagPart (j : Json) (name : String) : Bool := ((j.part? name).map (!·.isEmpty)).getD false

end Json

/-- The concrete tree of a JSON value of at most `height` levels. -/
def ConcreteTree.ofJsonAt : (height : Nat) → Json → ConcreteTree
  | 0, _ => default
  | height + 1, j =>
    { kind := (j.textPart? "t").getD ""
      start := j.natPart "s"
      stop := j.natPart "e"
      row := j.natPart "r"
      isNamed := (j.intPart? "n") != some 0
      isMissing := j.flagPart "m"
      hasError := j.flagPart "h"
      field := j.textPart? "f"
      children := (j.listPart "c").map (ofJsonAt height) }

/-- The concrete tree of a JSON value. -/
def ConcreteTree.ofJson (j : Json) : ConcreteTree := ofJsonAt j.height j

/-- A position: first line and column, last line and column; the last may be null. -/
def Span.ofJson? : Json → Option Span
  | .arr [.int line, .int column, endLine, endColumn] =>
    let number : Json → Option Int
      | .int n => some n
      | _ => none
    some ⟨line, column, number endLine, number endColumn⟩
  | _ => none

/-- Kinds of abstract nodes with a body. -/
def AbstractTree.compoundKinds : List String :=
  ["Module", "If", "For", "AsyncFor", "While", "Try", "TryStar", "With", "AsyncWith", "FunctionDef",
    "AsyncFunctionDef", "ClassDef", "ExceptHandler", "match_case"]

/-- The abstract tree of a JSON value of at most `height` levels. -/
def AbstractTree.ofJsonAt : (height : Nat) → Json → AbstractTree
  | 0, _ => default
  | height + 1, j =>
    let kind := (j.textPart? "t").getD ""
    let span := (j.part? "p").bind Span.ofJson?
    let one (name : String) := (j.part? name).map (ofJsonAt height)
    let all (name : String) := (j.listPart name).map (ofJsonAt height)
    if kind == "Match" then .matching kind span ((one "subject").getD default) (all "cases")
    else if compoundKinds.contains kind then
      .compound kind span ((j.textPart? "name").getD "")
        ((one "test").or ((one "type").or (one "pattern"))) (one "guard")
        (all "body") (all "orelse") (all "handlers") (all "finalbody")
    else .leaf kind span (one "value") (one "pattern") (j.flagPart "str")

/-- The abstract tree of a JSON value. -/
def AbstractTree.ofJson (j : Json) : AbstractTree := ofJsonAt j.height j

namespace Parsers

/-- The first answer for a grammar and a text. -/
def answer? (answers : List Json) (grammar source : String) : Option Json :=
  answers.find? fun a =>
    a.textPart? "grammar" == some grammar &&
      match a.textPart? "code" with
      | none => true
      | some code => code == source

/-- What an answer says: a tree, or how the parser failed. -/
def parsed {τ : Type} (ofJson : Json → τ) (answer : Option Json) : Parsed τ :=
  match answer with
  | none => .crashed "no parser answer"
  | some a =>
    let reason := (a.textPart? "message").getD ""
    match (a.textPart? "status").getD "ok" with
    | "ok" => .tree (ofJson ((a.field? "tree").getD .null))
    | "syntax_error" | "value_error" => .refused reason
    | _ => .crashed reason

/-- Parsers that give the answers of a list. -/
def ofJson (answers : List Json) : Parsers where
  abstract source := parsed AbstractTree.ofJson (answer? answers "python" source)
  missing grammar :=
    (answers.find? fun a => a.textPart? "grammar" == some grammar &&
      a.textPart? "status" == some "unavailable").map fun a => (a.textPart? "message").getD ""
  concrete grammar source := parsed ConcreteTree.ofJson (answer? answers grammar source)

end Parsers

end Flowchart
