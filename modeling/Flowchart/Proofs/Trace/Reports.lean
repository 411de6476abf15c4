import Flowchart.Trace.Model
import Mathlib.Tactic.SplitIfs

/-!
# Steps out of reports

Which reports are steps, and of which line and number, said without the order in which they are read:
`Step.kept` keeps of a list the objects whose line stands for a whole number (`Json.integer?`), each
with that line, and with the number of its step or its place in the list.

Reading gives just these steps (`ofReport_eq`), but for one kind of value: a double that is infinite
stands for no number, and yet it is not left out like other values that stand for none. It stops the
reading, where it is the line of a report or the step of one that has a line (`Step.isEndless`). So a
model's reply may leave its question without a trace (`steps_of_reports`).

## Main results

* `ofReport_eq`: reading gives the steps that are kept, unless an endless number stops it.
* `steps_of_reports`: what becomes of a reply, whatever it says.
* `infiniteLine_stops`: a reply with a usable step that leaves no trace.
-/

namespace Flowchart

/-! ### Whole numbers -/

/-- A double without its fraction. -/
def Decimal.Binary.towardsZero (b : Binary) : Int :=
  let (num, den) := scaled b.significand 2 b.exponent
  Int.tdiv (if b.negative then -num else num) den

namespace Json

/-- The whole number that a value stands for, if it stands for one. -/
def integer? : Json → Option Int
  | .int n => some n
  | .bool b => some (if b then 1 else 0)
  | .float x =>
    match Decimal.Value.ofFloat x with
    | .finite b => some b.towardsZero
    | .infinite _ | .nan => none
  | .str s => Decimal.readInt? s.toList
  | .null | .arr _ | .obj _ => none

/-- Whether a value is an infinite double. -/
def isInfinite : Json → Bool
  | .float x =>
    match Decimal.Value.ofFloat x with
    | .infinite _ => true
    | .finite _ | .nan => false
  | _ => false

/-- The items of a list; a value of another kind has none. -/
def entries : Json → List Json
  | .arr items => items
  | _ => []

/-- A value is read as the whole number it stands for, unless it is infinite. -/
theorem whole?_eq (j : Json) :
    j.whole? = if j.isInfinite then .error .infinite else .ok j.integer? := by
  cases j with
  | float x =>
      rw [whole?, wholePart, isInfinite, integer?]
      cases Decimal.Value.ofFloat x with
      | nan | infinite negative => rfl
      | finite b =>
          obtain ⟨negative, m, q⟩ := b
          have hcut : ∀ n d : Nat, Int.tdiv (if negative then -(n : Int) else n) d =
              if negative then -((n / d : Nat) : Int) else (n / d : Nat) := by
            intro n d
            cases negative
            · exact (Int.ofNat_tdiv n d).symm
            · exact (Int.neg_tdiv n d).trans (congrArg Neg.neg (Int.ofNat_tdiv n d).symm)
          simp only [Decimal.Binary.towardsZero, hcut, Bool.false_eq_true, if_false]
  | null | bool b | int n | str s | arr items | obj fields => rfl

end Json

namespace Step

/-! ### Steps of reports -/

/-- The step that the report at a place of a list stands for, if it has a line. -/
def kept? (index : Nat) (report : Json) : Option Step :=
  ((report.field? "line").bind Json.integer?).map fun line =>
    { number := ((report.field? "step").bind Json.integer?).getD (index + 1)
      line := line
      scope := Variable.allOfReport ((report.field? "variables").getD .null)
      explanation := report.fieldText "explanation"
      output := report.fieldText "output" }

/-- The steps that a list of reports stands for, in the order of the reports. -/
def kept (reports : Json) : List Step :=
  reports.entries.zipIdx.filterMap fun (report, index) => kept? index report

/-- Whether a report has an infinite line, or a line and an infinite step. -/
def isEndless (report : Json) : Bool :=
  (report.field? "line").any Json.isInfinite ||
    ((report.field? "line").bind Json.integer?).isSome &&
      (report.field? "step").any Json.isInfinite

/-- A field that is not there is read like one without a value. -/
theorem whole?_getD (field : Option Json) :
    (field.getD .null).whole? =
      if field.any Json.isInfinite then .error .infinite else .ok (field.bind Json.integer?) := by
  cases field with
  | none => rfl
  | some j => exact j.whole?_eq

/-- One report is read as the step that is kept of it, unless it is endless. -/
theorem ofReport?_eq (index : Nat) (report : Json) :
    ofReport? index report =
      if isEndless report then .error .infinite else .ok (kept? index report) := by
  cases report with
  | obj fields =>
      rw [ofReport?, whole?_getD, isEndless, kept?]
      cases hline : ((Json.obj fields).field? "line").any Json.isInfinite with
      | true => rfl
      | false =>
          cases hnumber : ((Json.obj fields).field? "line").bind Json.integer? with
          | none => rfl
          | some line =>
              simp only [whole?_getD]
              cases ((Json.obj fields).field? "step").any Json.isInfinite <;> rfl
  | null | bool b | int n | float x | str s | arr items => rfl

/-- So are several reports, each with its place in the list. -/
theorem ofReportsFrom_eq (index : Nat) (reports : List Json) :
    ofReportsFrom index reports =
      if reports.any isEndless then .error .infinite
      else .ok ((reports.zipIdx index).filterMap fun (report, index) => kept? index report) := by
  induction reports generalizing index with
  | nil => rfl
  | cons report reports ih =>
      rw [ofReportsFrom, ofReport?_eq, ih, List.any_cons, List.zipIdx_cons]
      cases isEndless report with
      | true => rfl
      | false =>
          cases reports.any isEndless with
          | true => rfl
          | false =>
              cases hkept : kept? index report <;>
                simp [hkept, bind, Except.bind, pure, Except.pure]

/-- Reading gives the steps that the reports stand for, unless one of them is endless. -/
theorem ofReport_eq (reports : Json) :
    ofReport reports =
      if reports.entries.any isEndless then .error .infinite else .ok (kept reports) := by
  cases reports with
  | arr items => exact ofReportsFrom_eq 0 items
  | null | bool b | int n | float x | str s | obj fields => rfl

end Step

/-! ### Steps of replies -/

namespace Trace

/-- The reports in an answer: the answer itself, or the field of an object. -/
def reportsIn : Json → Json
  | .obj fields => ((Json.obj fields).field? "steps").getD (.arr [])
  | j => j

/-- The answer that a model gives to the question about a program, if there is a model, there is a
question and the reply can be read. -/
def answer? (maxHeight : Nat) (model : Option (String → Reply)) (code language : String)
    (inputs : List (String × Json)) : Option Json := do
  match (← model) (← question? code language inputs) with
  | .failed _ => none
  | .content text => Json.read? maxHeight (String.ofList (unfenced (text.getD "").toList))

/-- So are the reports in an answer, without a last one that only says that the program has ended. -/
theorem ofAnswer_eq (j : Json) :
    ofAnswer j =
      if (reportsIn j).entries.any Step.isEndless then .error .infinite
      else .ok (Step.dropTermination (Step.kept (reportsIn j))) := by
  have hread : ofAnswer j = (Step.ofReport (reportsIn j)).map Step.dropTermination := by
    cases j <;> rfl
  rw [hread, Step.ofReport_eq]
  split_ifs <;> rfl

/-- What is written to the log has no part in the steps of a reply. -/
theorem value_ofReply (maxHeight : Nat) (reply : Reply) :
    (ofReply maxHeight reply).value =
      match reply with
      | .failed _ => .ok []
      | .content text =>
        match Json.read? maxHeight (String.ofList (unfenced (text.getD "").toList)) with
        | none => .ok []
        | some j => ofAnswer j := by
  cases reply with
  | failed reason => rfl
  | content text =>
      simp only [ofReply]
      cases Json.read? maxHeight (String.ofList (unfenced (text.getD "").toList)) <;> rfl

/-- A trace comes out of the answer alone; where there is none, it has no steps. -/
theorem value_trace (maxHeight : Nat) (model : Option (String → Reply)) (code language : String)
    (inputs : List (String × Json)) :
    (trace maxHeight model code language inputs).value =
      match answer? maxHeight model code language inputs with
      | none => .ok []
      | some j => ofAnswer j := by
  cases model with
  | none => rfl
  | some ask =>
      cases hquestion : question? code language inputs with
      | none => simp [trace, answer?, hquestion]
      | some q =>
          simp only [trace, answer?, hquestion, Option.bind_eq_bind, Option.bind_some, value_ofReply]
          cases ask q with
          | failed reason => rfl
          | content text => simp only

end Trace

/-- What reports and replies come to, whatever they are. Of a list the objects are kept whose line
stands for a whole number, each with that line and with its own step or its place, unless there is an
endless report among them. A trace is made of the steps in the answer, without a last one that only says
that the program has ended, and has no steps where there is no answer; only an answer with an endless
report leaves the question without a trace. -/
theorem steps_of_reports (reports : Json) (maxHeight : Nat) (model : Option (String → Trace.Reply))
    (code language : String) (inputs : List (String × Json)) :
    Step.ofReport reports =
        (if reports.entries.any Step.isEndless then .error .infinite else .ok (Step.kept reports)) ∧
      (Trace.trace maxHeight model code language inputs).value =
        match Trace.answer? maxHeight model code language inputs with
        | none => .ok []
        | some j =>
          if (Trace.reportsIn j).entries.any Step.isEndless then .error .infinite
          else .ok (Step.dropTermination (Step.kept (Trace.reportsIn j))) := by
  refine ⟨Step.ofReport_eq reports, ?_⟩
  rw [Trace.value_trace]
  cases Trace.answer? maxHeight model code language inputs with
  | none => rfl
  | some j => exact Trace.ofAnswer_eq j

/-- A line that is infinite is not left out: neither the reports nor the reply that has them give a
trace. -/
theorem infiniteLine_stops :
    let reports : Json := .arr [.obj [("line", .float (Float.ofBits 0x7FF0000000000000))]]
    let reply : Trace.Reply := .content (some "[\x7b\"line\": Infinity\x7d, \x7b\"line\": 2\x7d]")
    (¬ ∃ steps, Step.ofReport reports = .ok steps) ∧
      ¬ ∃ steps, (Trace.trace Json.usualHeight (some fun _ => reply) "x = 1" "Python" []).value =
        .ok steps := by
  intro reports reply
  have hstops : (Step.ofReport reports).toOption = none ∧
      (Trace.trace Json.usualHeight (some fun _ => reply) "x = 1" "Python" []).value.toOption =
        none := by
    decide +kernel
  constructor
  · rintro ⟨steps, hsteps⟩
    exact absurd (hstops.1.symm.trans (congrArg Except.toOption hsteps)) nofun
  · rintro ⟨steps, hsteps⟩
    exact absurd (hstops.2.symm.trans (congrArg Except.toOption hsteps)) nofun

end Flowchart
