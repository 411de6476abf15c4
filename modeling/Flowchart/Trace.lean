import Flowchart.Json.Reader
import Flowchart.Json.Writer
import Flowchart.Text.Fold

/-!
# Traces

The steps of a program's run, as a tracer outside reports them. Reports come in several shapes;
`Step.ofReport` makes steps of them and leaves out what has no line. A step holds the variables that
the tracer saw after it: all of them or, in some languages, only those that changed, which
`accumulate` then adds up. `dropTermination` takes away a last step that only says that the program
has ended.
-/

namespace Flowchart

/-- A variable after a step. -/
structure Variable where
  value : String
  type : String := ""
  history : List String := []
  deriving DecidableEq, Repr

/-- A step of a run. -/
structure Step where
  number : Int
  line : Int
  /-- The variables that are reported after the step. -/
  scope : List (String × Variable) := []
  explanation : String := ""
  output : String := ""
  deriving DecidableEq, Repr

/-- A number that is too large to be whole. -/
inductive Overflow where
  | infinite
  deriving DecidableEq, Repr

/-- The wording of the fault. -/
def Overflow.message : Overflow → String
  | .infinite => "cannot convert float infinity to integer"

/-! ### Reading reports -/

/-- The whole part of a double; none if it is no number. -/
def wholePart (x : Float) : Except Overflow (Option Int) :=
  match Decimal.Value.ofFloat x with
  | .nan => .ok none
  | .infinite _ => .error .infinite
  | .finite ⟨negative, m, q⟩ =>
    let (num, den) := Decimal.scaled m 2 q
    let n : Int := (num / den : Nat)
    .ok (some (if negative then -n else n))

/-- The whole number a value stands for, if it stands for one. -/
def Json.whole? : Json → Except Overflow (Option Int)
  | .int n => .ok (some n)
  | .bool b => .ok (some (if b then 1 else 0))
  | .float x => wholePart x
  | .str s => .ok (Decimal.readInt? s.toList)
  | .null | .arr _ | .obj _ => .ok none

/-- The text of a reported value. -/
def Json.valueText : Json → String
  | .str s => s
  | .null => "None"
  | j => j.write Json.spaced

/-- The text of a field, empty where it counts as absent. -/
def Json.fieldText (j : Json) (name : String) : String :=
  match j.field? name with
  | none => ""
  | some v => if v.isEmpty then "" else v.display

namespace Variable

/-- A variable from its report: an object with a value, or the value itself. -/
def ofReport (j : Json) : Variable :=
  match j.field? "value" with
  | none => ⟨j.valueText, "", []⟩
  | some v =>
    let history := match j.field? "history" with
      | some (.arr items) => items.map Json.valueText
      | _ => []
    ⟨v.valueText, j.fieldText "type", history⟩

/-- The named reports in a report of variables: an object's fields, or the objects of a list with
their names. -/
def namedReports : Json → List (Json × Json)
  | .obj fields => fields.map fun (name, j) => (.str name, j)
  | .arr items =>
    items.filterMap fun j =>
      match j with
      | .obj _ => some ((j.field? "name").getD .null, j)
      | _ => none
  | _ => []

/-- The variables in a report; those without a name are left out. -/
def allOfReport (j : Json) : List (String × Variable) :=
  putAll (((namedReports j).filter fun r => !r.1.isEmpty).map fun r =>
    (r.1.display, ofReport r.2))

/-- A variable as a report. -/
def toReport (v : Variable) : Json :=
  .obj [("value", .str v.value), ("type", .str v.type), ("history", .arr (v.history.map .str))]

end Variable

namespace Step

/-- A step from its report, the `index`th of a list; none if it has no line. -/
def ofReport? (index : Nat) (j : Json) : Except Overflow (Option Step) :=
  match j with
  | .obj _ => do
    match ← ((j.field? "line").getD .null).whole? with
    | none => return none
    | some line =>
      let number ← ((j.field? "step").getD .null).whole?
      return some {
        number := number.getD (index + 1)
        line := line
        scope := Variable.allOfReport ((j.field? "variables").getD .null)
        explanation := j.fieldText "explanation"
        output := j.fieldText "output" }
  | _ => .ok none

/-- The steps in reports, the first of which is the `index`th. -/
def ofReportsFrom : (index : Nat) → List Json → Except Overflow (List Step)
  | _, [] => .ok []
  | index, j :: js => do
    let first ← ofReport? index j
    let rest ← ofReportsFrom (index + 1) js
    return first.toList ++ rest

/-- The steps in a list of reports. -/
def ofReport : Json → Except Overflow (List Step)
  | .arr items => ofReportsFrom 0 items
  | _ => .ok []

/-! ### Writing steps -/

/-- A step as a report. -/
def toReport (s : Step) : Json :=
  .obj [("step", .int s.number), ("line", .int s.line),
    ("variables", .obj (s.scope.map fun (name, v) => (name, v.toReport))),
    ("explanation", .str s.explanation), ("output", .str s.output)]

/-! ### Variables over time -/

/-- Adds the variables of a step to those known before. -/
def update (known new : List (String × Variable)) : List (String × Variable) :=
  new.foldl (fun acc (name, v) => put acc name v) known

/-- The variables after steps that report changes only. -/
def accumulate (steps : List Step) : List (String × Variable) :=
  steps.foldl (fun acc s => update acc s.scope) []

/-! ### The end of a run -/

/-- What explanations of a step that ends a run say. -/
def terminationWords : List String :=
  ["finish", "ends", "exhausted", "complete", "terminates", "condition false", "exiting",
    "leaving block", "final check", "no more inputs", "program ends", "execution completes",
    "processed all", "check condition"]

/-- Whether an explanation reads like the end of a run. -/
def readsLikeEnd (explanation : String) : Bool :=
  terminationWords.any fun w => Text.occursFolded w.toList explanation.toList

/-- Whether a step, after steps of which `before` is the last, changes nothing. -/
def changesNothing (known : List (String × Variable)) (before last : Step) : Bool :=
  (last.scope.all fun (name, v) => (get? known name).any fun k => k.value == v.value) &&
    last.output == before.output

/-- The steps without a last one that reads like the end of the run and changes nothing. -/
def dropTermination (steps : List Step) : List Step :=
  match steps.getLast?, steps.dropLast.getLast? with
  | some last, some before =>
    if readsLikeEnd last.explanation && changesNothing (accumulate steps.dropLast) before last then
      steps.dropLast
    else steps
  | _, _ => steps

end Step

end Flowchart
