import Flowchart.Proofs.Command
import Flowchart.Proofs.Json.ReadBack

/-!
# Steps that are written

Steps come out of reports of several shapes; they are written as reports of one shape. Whatever the
reading has made of a report, the reading of this report leaves alone: texts stay texts, whole numbers
stay whole numbers, and the variables keep their places, since each has a name of its own and none the
empty one (`Variable.Settled`). So reading once more changes nothing.

That the text of the reports is read as the reports is a matter of JSON (`Json.read?_writeIndented`),
but for the lengths of whole numbers: a reader takes only so many digits. The numbers of steps that were
themselves read from a text have few enough, also where they were doubles or texts of digits
(`Json.isShort_of_integer?`).

## What has to be read again

Writing and reading are inverse to each other in three layers. A step is made into a report and found in
it again (`kept?_toReport`); reports are written as a text and read from it, which needs that the
lengths of numbers and the height of the value are within what the reader takes (`plain_toReport`,
`height_toReport_le`); and the text is the content of a file (`ofReport_read?_traceText`). Only steps
that came from reports have these properties, since only there names are settled and numbers short.

## Main results

* `read?_toReport`, `kept?_toReport`: the report of a step is read as the step.
* `ofReport_read?_toReport`: so are the reports of all steps, from the text they are written as.
* `Step.ofReport_written`: steps that were read from some reports are read from the reports that are
  written of them, and from the text of these, as the same steps.
-/

namespace Flowchart

/-! ### Doubles -/

namespace Decimal

/-- A double has 53 digits and an exponent of at most 971. -/
theorem Value.bounds_of_ofBits {bits : UInt64} {b : Binary} (h : ofBits bits = .finite b) :
    b.significand < 2 ^ 53 ∧ b.exponent ≤ 971 := by
  have hfraction : bits.toNat % hiddenBit < 2 ^ 52 := Nat.mod_lt _ (by decide)
  have hexponent : bits.toNat / hiddenBit % Nat.pow 2 11 < 2 ^ 11 := Nat.mod_lt _ (by decide)
  have hhidden : hiddenBit = 2 ^ 52 := rfl
  simp only [ofBits] at h
  split_ifs at h
  · obtain rfl := Value.finite.inj h
    exact ⟨by dsimp only; omega, by dsimp only; omega⟩
  · obtain rfl := Value.finite.inj h
    exact ⟨by dsimp only; omega, by dsimp only; omega⟩

/-- The whole part of a binary number is bounded by its digits and its exponent. -/
theorem Binary.natAbs_towardsZero_le (b : Binary) :
    b.towardsZero.natAbs ≤ b.significand * 2 ^ b.exponent.toNat := by
  have hcut : ∀ num den : Nat,
      (Int.tdiv (if b.negative then -(num : Int) else num) den).natAbs ≤ num := by
    intro num den
    rw [Int.natAbs_tdiv]
    exact (Nat.div_le_self _ _).trans (by split_ifs <;> simp)
  have hscaled : (scaled b.significand 2 b.exponent).1 ≤ b.significand * 2 ^ b.exponent.toNat := by
    rw [scaled]
    split_ifs
    · exact Nat.le_refl _
    · exact Nat.le_mul_of_pos_right _ (Nat.pow_pos (by decide))
  exact (hcut _ _).trans hscaled

/-- A double without its fraction has few enough digits to be read from a text. -/
theorem isShort_towardsZero {bits : UInt64} {b : Binary} (h : Value.ofBits bits = .finite b) :
    IsShort b.towardsZero := by
  obtain ⟨hsignificand, hexponent⟩ := Value.bounds_of_ofBits h
  have hsmall : 53 + b.exponent.toNat < maxDigits := by
    have hdigits : maxDigits = 4300 := rfl
    omega
  rw [isShort_iff]
  calc b.towardsZero.natAbs
      ≤ b.significand * 2 ^ b.exponent.toNat := b.natAbs_towardsZero_le
    _ ≤ 10 ^ 53 * 10 ^ b.exponent.toNat :=
      Nat.mul_le_mul (by omega) (Nat.pow_le_pow_left (by decide) _)
    _ = 10 ^ (53 + b.exponent.toNat) := (Nat.pow_add 10 53 _).symm
    _ < 10 ^ maxDigits := Nat.pow_lt_pow_right (by decide) hsmall

end Decimal

/-! ### Texts of fields -/

/-- Digits have a text. -/
theorem Decimal.Digits.text_ne_nil (d : Digits) : d.text ≠ [] := by
  simp only [text]
  split_ifs <;> simp

/-- Every value of a double has a text. -/
theorem Decimal.Value.text_ne_empty (v : Value) : v.text Json.literalNames ≠ "" := by
  cases v with
  | nan => decide
  | infinite negative => cases negative <;> decide
  | finite b =>
      intro h
      have hnil := congrArg String.toList h
      rw [text, String.toList_ofList] at hnil
      exact (shortest b.significand b.exponent).text_ne_nil (List.append_eq_nil_iff.mp hnil).2

namespace Json

/-- Every whole number has a text. -/
theorem toString_ne_empty (n : Int) : toString n ≠ "" := by
  intro h
  have hnil := congrArg String.toList h
  cases n with
  | ofNat n => exact Nat.toDigits_ne_nil (Nat.toList_repr.symm.trans hnil)
  | negSucc n =>
      have hcons : (toString (Int.negSucc n)).toList = '-' :: (n + 1).repr.toList :=
        String.toList_append
      exact absurd (hcons.symm.trans hnil) nofun

/-- What does not count as absent has a text. -/
theorem display_ne_empty {j : Json} (h : j.isEmpty = false) : j.display ≠ "" := by
  cases j with
  | null => exact absurd h (by decide)
  | bool b => cases b <;> simp [display, literal]
  | int n => simpa only [display, literal] using toString_ne_empty n
  | float x => simpa only [display, literal] using (Decimal.Value.ofFloat x).text_ne_empty
  | str s =>
      rintro rfl
      exact absurd h (by decide)
  | arr items | obj fields => simp [display, literal]

/-- A field that holds a text holds this text. -/
theorem fieldText_of_str {j : Json} {name s : String} (h : j.field? name = some (.str s)) :
    j.fieldText name = s := by
  rw [fieldText, h]
  by_cases hs : s = ""
  · rw [hs]
    rfl
  · simp [isEmpty, display, hs]

end Json

/-! ### Variables -/

namespace Variable

/-- A variable is read from its report as it is. -/
theorem ofReport_toReport (v : Variable) : ofReport v.toReport = v := by
  have htype : v.toReport.fieldText "type" = v.type := Json.fieldText_of_str rfl
  have hhistory : (v.history.map Json.str).map Json.valueText = v.history := by
    rw [List.map_map]
    exact List.map_id _
  calc ofReport v.toReport
      = ⟨v.value, v.toReport.fieldText "type", (v.history.map Json.str).map Json.valueText⟩ := rfl
    _ = v := by rw [htype, hhistory]

/-- Variables with names of their own, none of which is empty. -/
structure Settled (scope : List (String × Variable)) : Prop where
  nodup : (scope.map Prod.fst).Nodup
  named : ∀ f ∈ scope, f.1 ≠ ""

/-- The variables that are read from a report are settled. -/
theorem settled_allOfReport (j : Json) : Settled (allOfReport j) := by
  refine ⟨nodup_putAll _, fun f hf => ?_⟩
  obtain ⟨r, hr, rfl⟩ := List.mem_map.mp (mem_of_mem_putAll hf)
  have hname := (List.mem_filter.mp hr).2
  rw [Bool.not_eq_true'] at hname
  exact Json.display_ne_empty hname

/-- Settled variables are read from their reports as they are, in their places. -/
theorem Settled.allOfReport_eq {scope : List (String × Variable)} (h : Settled scope) :
    allOfReport (.obj (scope.map (Prod.map id toReport))) = scope := by
  have hnamed : ((namedReports (.obj (scope.map (Prod.map id toReport)))).filter fun r =>
      !r.1.isEmpty) = scope.map fun f => (.str f.1, f.2.toReport) := by
    rw [namedReports, List.map_map]
    refine List.filter_eq_self.mpr fun r hr => ?_
    obtain ⟨f, hf, rfl⟩ := List.mem_map.mp hr
    simp [Json.isEmpty, h.named f hf]
  have hread : (scope.map fun f => (Json.str f.1, f.2.toReport)).map
      (fun r => (r.1.display, ofReport r.2)) = scope := by
    rw [List.map_map]
    exact (List.map_congr_left fun f _ => congrArg (Prod.mk f.1) (ofReport_toReport f.2)).trans
      (List.map_id scope)
  rw [allOfReport, hnamed, hread, putAll_of_nodup h.nodup]

/-- The report of a variable holds texts alone. -/
theorem plain_toReport (v : Variable) : v.toReport.Plain := by
  refine .obj (show ["value", "type", "history"].Nodup by decide) ?_
  simp only [List.forall_mem_cons, List.not_mem_nil, false_imp_iff, implies_true, and_true]
  refine ⟨.str _, .str _, .arr fun j hj => ?_⟩
  obtain ⟨text, -, rfl⟩ := List.mem_map.mp hj
  exact .str text

/-- The report of a variable is three levels high at most. -/
theorem height_toReport_le (v : Variable) : v.toReport.height ≤ 3 := by
  have hhistory : Json.heightOfItems (v.history.map Json.str) ≤ 1 := by
    refine Json.heightOfItems_le fun j hj => ?_
    obtain ⟨text, -, rfl⟩ := List.mem_map.mp hj
    exact Nat.le_refl 1
  simp only [toReport, Json.height, Json.heightOfFields]
  omega

end Variable

/-! ### Whole numbers -/

namespace Json

/-- What stands in a legible value is legible. -/
theorem Legible.entries {doubles : Float → Prop} {j : Json} (h : Legible doubles j) :
    ∀ item ∈ j.entries, Legible doubles item := by
  cases h with
  | arr hitems => exact hitems
  | _ => exact nofun

/-- What stands for a whole number in a text is short. -/
theorem isShort_of_integer? {j : Json} {n : Int} (hj : j.IsRead) (h : j.integer? = some n) :
    Decimal.IsShort n := by
  cases hj with
  | int hshort =>
      obtain rfl := Option.some.inj h
      exact hshort
  | bool b =>
      obtain rfl := Option.some.inj h
      cases b <;> decide
  | @float x =>
      rw [integer?] at h
      split at h
      · obtain rfl := Option.some.inj h
        exact Decimal.isShort_towardsZero ‹_›
      · exact absurd h.symm (Option.some_ne_none n)
      · exact absurd h.symm (Option.some_ne_none n)
  | str s => exact Decimal.isShort_of_readInt? h
  | null | arr | obj => exact absurd h.symm (Option.some_ne_none n)

end Json

/-! ### Steps -/

namespace Step

open Variable (Settled)

variable {steps : List Step} {reports : Json}

/-- The number and the line of a step have few enough digits to be read from a text. -/
structure IsShort (s : Step) : Prop where
  number : Decimal.IsShort s.number
  line : Decimal.IsShort s.line

instance (s : Step) : Decidable s.IsShort :=
  decidable_of_iff (Decimal.IsShort s.number ∧ Decimal.IsShort s.line)
    ⟨fun h => ⟨h.1, h.2⟩, fun h => ⟨h.number, h.line⟩⟩

/-- All steps that are read come from reports. -/
theorem exists_kept? (hread : ofReport reports = .ok steps) {s : Step} (hs : s ∈ steps) :
    ∃ report ∈ reports.entries, ∃ index < reports.entries.length, kept? index report = some s := by
  rw [ofReport_eq] at hread
  split_ifs at hread
  obtain rfl := Except.ok.inj hread
  obtain ⟨⟨report, index⟩, hmem, hkept⟩ := List.mem_filterMap.mp hs
  have hbounds := List.mem_zipIdx hmem
  exact ⟨report, List.fst_mem_of_mem_zipIdx hmem, index, by omega, hkept⟩

/-- The variables of a step that was kept are settled. -/
theorem settled_of_kept? {index : Nat} {report : Json} {s : Step}
    (h : kept? index report = some s) : Settled s.scope := by
  obtain ⟨line, -, rfl⟩ := Option.map_eq_some_iff.mp h
  exact Variable.settled_allOfReport _

/-- A settled step is kept as it is, at any place. -/
theorem kept?_toReport {s : Step} (h : Settled s.scope) (index : Nat) :
    kept? index s.toReport = some s := by
  have hexplanation : s.toReport.fieldText "explanation" = s.explanation :=
    Json.fieldText_of_str rfl
  have houtput : s.toReport.fieldText "output" = s.output := Json.fieldText_of_str rfl
  calc kept? index s.toReport
      = some ⟨s.number, s.line,
          Variable.allOfReport (.obj (s.scope.map (Prod.map id Variable.toReport))),
          s.toReport.fieldText "explanation", s.toReport.fieldText "output"⟩ := rfl
    _ = some s := by rw [h.allOfReport_eq, hexplanation, houtput]

/-- The report of a step has no endless number. -/
theorem isEndless_toReport (s : Step) : isEndless s.toReport = false := rfl

/-- Steps with settled variables are read from their reports as they are, whatever they are counted
from. -/
theorem ofReportsFrom_toReport (h : ∀ s ∈ steps, Settled s.scope) (index : Nat) :
    ofReportsFrom index (steps.map toReport) = .ok steps := by
  induction steps generalizing index with
  | nil => rfl
  | cons s steps ih =>
      rw [List.map_cons, ofReportsFrom, ofReport?_eq, isEndless_toReport,
        kept?_toReport (h s List.mem_cons_self), ih fun t ht => h t (List.mem_cons_of_mem s ht)]
      rfl

/-- The report of a step holds texts and short whole numbers alone. -/
theorem plain_toReport {s : Step} (hsettled : Settled s.scope) (hshort : s.IsShort) :
    s.toReport.Plain := by
  refine .obj (show ["step", "line", "variables", "explanation", "output"].Nodup by decide) ?_
  simp only [List.forall_mem_cons, List.not_mem_nil, false_imp_iff, implies_true, and_true]
  refine ⟨.int hshort.number, .int hshort.line, .obj ?_ fun f hf => ?_, .str _, .str _⟩
  · rw [List.map_map]
    exact hsettled.nodup
  · obtain ⟨g, -, rfl⟩ := List.mem_map.mp hf
    exact g.2.plain_toReport

/-- The report of a step is five levels high at most. -/
theorem height_toReport_le (s : Step) : s.toReport.height ≤ 5 := by
  have hscope : Json.heightOfFields (s.scope.map (Prod.map id Variable.toReport)) ≤ 3 := by
    refine Json.heightOfFields_le fun f hf => ?_
    obtain ⟨g, -, rfl⟩ := List.mem_map.mp hf
    exact g.2.height_toReport_le
  have hreport : s.toReport.height = Json.heightOfFields [("step", .int s.number),
      ("line", .int s.line), ("variables", .obj (s.scope.map (Prod.map id Variable.toReport))),
      ("explanation", .str s.explanation), ("output", .str s.output)] + 1 := rfl
  rw [hreport]
  simp only [Json.height, Json.heightOfFields]
  omega

/-- How many levels the reports of steps have: the list, a report, its variables, one of them, its
history, and a value in that. -/
def reportLevels : Nat := 6

variable {maxHeight : Nat}

/-- Settled steps with short numbers are in the text that they are written in. -/
theorem read?_toReport (hroom : reportLevels ≤ maxHeight) (hsettled : ∀ s ∈ steps, Settled s.scope)
    (hshort : ∀ s ∈ steps, s.IsShort) :
    Json.read? maxHeight ((Json.arr (steps.map toReport)).writeIndented 0) =
      some (.arr (steps.map toReport)) := by
  refine Json.read?_writeIndented (.arr fun j hj => ?_) (Nat.le_trans ?_ hroom)
  · obtain ⟨s, hs, rfl⟩ := List.mem_map.mp hj
    exact plain_toReport (hsettled s hs) (hshort s hs)
  · have hitems : Json.heightOfItems (steps.map toReport) ≤ 5 := by
      refine Json.heightOfItems_le fun j hj => ?_
      obtain ⟨s, -, rfl⟩ := List.mem_map.mp hj
      exact s.height_toReport_le
    exact Nat.succ_le_succ hitems

/-- A whole number that a field of a text gave is short. -/
theorem isShort_of_field? {report : Json} {name : String} {n : Int} (hreport : report.IsRead)
    (h : (report.field? name).bind Json.integer? = some n) : Decimal.IsShort n := by
  obtain ⟨j, hj, hn⟩ := Option.bind_eq_some_iff.mp h
  exact Json.isShort_of_integer? (hreport.field? hj) hn

/-- The steps that a text spells are short, if there are not too many to be counted. -/
theorem isShort_of_mem {s : Step} (hread : ofReport reports = .ok steps) (hreports : reports.IsRead)
    (hcount : Decimal.IsShort reports.entries.length) (hs : s ∈ steps) : s.IsShort := by
  obtain ⟨report, hreport, index, hindex, hkept⟩ := exists_kept? hread hs
  obtain ⟨line, hline, rfl⟩ := Option.map_eq_some_iff.mp hkept
  have hentry := hreports.entries report hreport
  refine ⟨?_, isShort_of_field? hentry hline⟩
  cases hnumber : (report.field? "step").bind Json.integer? with
  | none => exact hcount.of_natAbs_le (by simp; omega)
  | some number => exact isShort_of_field? hentry hnumber

/-- All steps that were read have settled variables. -/
theorem settled_of_mem {s : Step} (hread : ofReport reports = .ok steps) (hs : s ∈ steps) :
    Settled s.scope := by
  obtain ⟨report, -, index, -, hkept⟩ := exists_kept? hread hs
  exact settled_of_kept? hkept

/-- Steps are read back from the text that they are written in. -/
theorem ofReport_read?_toReport (hroom : reportLevels ≤ maxHeight)
    (hsettled : ∀ s ∈ steps, Settled s.scope) (hshort : ∀ s ∈ steps, s.IsShort) :
    (Json.read? maxHeight ((Json.arr (steps.map toReport)).writeIndented 0)).map ofReport =
      some (.ok steps) := by
  rw [read?_toReport hroom hsettled hshort, Option.map_some]
  exact congrArg some (ofReportsFrom_toReport hsettled 0)

/-- Dropping the last report adds no step. -/
theorem dropTermination_subset (steps : List Step) : dropTermination steps ⊆ steps := by
  rw [dropTermination]
  split
  · split_ifs
    · exact List.dropLast_subset steps
    · exact List.Subset.refl steps
  · exact List.Subset.refl steps

end Step

/-! ### The file of a trace -/

namespace Trace

variable {maxHeight : Nat} {model : Option (String → Reply)} {code language : String}
  {inputs : List (String × Json)} {j : Json}

/-- The answer of a model is read from a text. -/
theorem isRead_of_answer? (h : answer? maxHeight model code language inputs = some j) : j.IsRead := by
  obtain ⟨ask, -, h⟩ := Option.bind_eq_some_iff.mp h
  obtain ⟨question, -, h⟩ := Option.bind_eq_some_iff.mp h
  split at h
  · exact absurd h nofun
  · exact Json.isRead_of_read? h

/-- The reports in a value that was read were read with it. -/
theorem isRead_reportsIn (h : j.IsRead) : (reportsIn j).IsRead := by
  cases j with
  | obj fields =>
      rw [reportsIn]
      cases hsteps : (Json.obj fields).field? "steps" with
      | none => exact .arr nofun
      | some reports => exact h.field? hsteps
  | _ => exact h

end Trace

namespace Command

variable {w : World} {o : Options} {d : Drawn} {maxHeight : Nat}

/-- The answer to the command is read from a text. -/
theorem isRead_of_answer? {j : Json} (h : answer? w o d = some j) : j.IsRead := by
  obtain ⟨ask, -, h⟩ := Option.bind_eq_some_iff.mp h
  exact Trace.isRead_of_answer? h

/-- The steps of a trace are read back from the text that they are written in. -/
theorem ofReport_read?_traceText (hroom : Step.reportLevels ≤ maxHeight) (hendless : ¬Endless w o d)
    (hcount : ∀ j ∈ answer? w o d, Decimal.IsShort (Trace.reportsIn j).entries.length) :
    (Json.read? maxHeight (traceText w o d)).map Step.ofReport = some (.ok (steps w o d)) := by
  rw [traceText]
  cases hanswer : answer? w o d with
  | none =>
      rw [steps, hanswer]
      exact Step.ofReport_read?_toReport hroom (List.forall_mem_nil _) (List.forall_mem_nil _)
  | some j =>
      have hread : Step.ofReport (Trace.reportsIn j) = .ok (Step.kept (Trace.reportsIn j)) := by
        rw [Step.ofReport_eq, if_neg fun h => hendless ⟨j, hanswer, h⟩]
      have hsteps : steps w o d ⊆ Step.kept (Trace.reportsIn j) := by
        rw [steps, hanswer]
        exact Step.dropTermination_subset _
      have hreports := Trace.isRead_reportsIn (isRead_of_answer? hanswer)
      exact Step.ofReport_read?_toReport hroom (fun s hs => Step.settled_of_mem hread (hsteps hs))
        fun s hs => Step.isShort_of_mem hread hreports (hcount j hanswer) (hsteps hs)

end Command

/-- Steps survive being written. Those that are read from a value, of whatever shape its reports are,
are read again from their own reports, and from the text of these by every reader that has room for the
few levels of a report, if it can be read at all: if no step has a number or a line of more digits than a
reader takes. A value that was read from a text gives no such step, unless it has more reports than can
be counted with as many digits.

So the file that the command makes of a trace holds just the steps of the trace. -/
theorem Step.ofReport_written (reports : Json) (w : Command.World) (o : Command.Options)
    {maxHeight : Nat} (hroom : Step.reportLevels ≤ maxHeight) :
    (∀ steps, ofReport reports = .ok steps →
      ofReport (.arr (steps.map toReport)) = .ok steps ∧
        ((∀ s ∈ steps, s.IsShort) →
          (Json.read? maxHeight ((Json.arr (steps.map toReport)).writeIndented 0)).map ofReport =
            some (.ok steps)) ∧
        (reports.IsRead → Decimal.IsShort reports.entries.length → ∀ s ∈ steps, s.IsShort)) ∧
      ∀ r path text, ((Command.run w o).run {}).value.1 = .ok r → r.written = some (path, text) →
        ∃ d, Command.drawn? w o = some d ∧
          ((∀ j ∈ Command.answer? w o d, Decimal.IsShort (Trace.reportsIn j).entries.length) →
            (Json.read? maxHeight text).map ofReport = some (.ok (Command.steps w o d))) := by
  refine ⟨fun steps hread => ?_, fun r path text hrun hwritten => ?_⟩
  · have hsettled : ∀ s ∈ steps, Variable.Settled s.scope := fun s hs => settled_of_mem hread hs
    exact ⟨ofReportsFrom_toReport hsettled 0, ofReport_read?_toReport hroom hsettled,
      fun hreports hcount s hs => isShort_of_mem hread hreports hcount hs⟩
  · have hcourse := Command.course_run w o
    rw [hrun] at hcourse
    cases hcourse with
    | undrawn | unrendered | untraced => exact absurd hwritten nofun
    | @written d target path hsaves _ _ =>
        obtain ⟨-, rfl⟩ := Prod.mk.inj (Option.some.inj hwritten)
        exact ⟨d, hsaves.prints.1, Command.ofReport_read?_traceText hroom hsaves.not_endless⟩

namespace Step

/-- Reports in several shapes: one has a text for its line, one has no line, and one has a list of
variables. -/
def mixedReports : String :=
  "[\x7b\"line\": \"3\", \"variables\": \x7b\"x\": 1\x7d\x7d, \x7b\"line\": null\x7d,
    \x7b\"line\": true, \"variables\": [\x7b\"name\": 5, \"value\": null\x7d]\x7d]"

/-- Their steps. -/
def mixedSteps : List Step :=
  [{ number := 1, line := 3, scope := [("x", ⟨"1", "", []⟩)] },
    { number := 3, line := 1, scope := [("5", ⟨"None", "", []⟩)] }]

/-- A world whose model knows of one step. -/
def oneStep : Command.World :=
  { Command.oneFile with model := fun _ => .ok fun _ => .content (some "[\x7b\"line\": 1\x7d]") }

def traceOptions : Command.Options where
  path := "x.py"
  language := some "python"
  trace := some "x.json"

/-- What is there as an option is there. -/
theorem eq_ok_of_toOption {ε α : Type} {x : Except ε α} {a : α} (h : x.toOption = some a) :
    x = .ok a := by
  cases x with
  | error e => exact absurd h nofun
  | ok b => exact congrArg Except.ok (Option.some.inj h)

/-- Reports of several shapes: the steps they are read as, those that are written of these and read
again, and what a run of the program writes. -/
theorem ofReport_written_mixed :
    (∃ reports, Json.read? Json.usualHeight mixedReports = some reports ∧
        ofReport reports = .ok mixedSteps) ∧
      ofReport (.arr (mixedSteps.map toReport)) = .ok mixedSteps ∧
      (Json.read? Json.usualHeight ((Json.arr (mixedSteps.map toReport)).writeIndented 0)).map ofReport =
        some (.ok mixedSteps) ∧
      ∃ r path text, ((Command.run oneStep traceOptions).run {}).value.1 = .ok r ∧
        r.written = some (path, text) ∧
        (Json.read? Json.usualHeight text).map ofReport = some (.ok [{ number := 1, line := 1 }]) := by
  have hmixed : ((Json.read? Json.usualHeight mixedReports).map fun j =>
      ((ofReport j).toOption, decide (Decimal.IsShort j.entries.length))) =
        some (some mixedSteps, true) := by
    decide +kernel
  have hrun : (((Command.run oneStep traceOptions).run {}).value.1.toOption.bind
      Command.Report.written).isSome := by
    decide +kernel
  have hdrawn : ((Command.drawn? oneStep traceOptions).map fun d =>
      (Command.steps oneStep traceOptions d, (Command.answer? oneStep traceOptions d).all
        fun j => decide (Decimal.IsShort (Trace.reportsIn j).entries.length))) =
          some ([{ number := 1, line := 1 }], true) := by
    decide +kernel
  obtain ⟨reports, hreports, hmixed⟩ := Option.map_eq_some_iff.mp hmixed
  obtain ⟨hsteps, hcount⟩ := Prod.mk.inj hmixed
  obtain ⟨⟨path, text⟩, hrun⟩ := Option.isSome_iff_exists.mp hrun
  obtain ⟨r, hr, hwritten⟩ := Option.bind_eq_some_iff.mp hrun
  obtain ⟨hread, hfile⟩ := ofReport_written reports oneStep traceOptions
    (show reportLevels ≤ Json.usualHeight by decide)
  obtain ⟨hagain, htext, hshort⟩ := hread mixedSteps (eq_ok_of_toOption hsteps)
  refine ⟨⟨reports, hreports, eq_ok_of_toOption hsteps⟩, hagain,
    htext (hshort (Json.isRead_of_read? hreports) (of_decide_eq_true hcount)),
    r, path, text, eq_ok_of_toOption hr, hwritten, ?_⟩
  obtain ⟨d, hd, hback⟩ := hfile r path text (eq_ok_of_toOption hr) hwritten
  rw [hd, Option.map_some, Option.some.injEq] at hdrawn
  obtain ⟨hone, hanswer⟩ := Prod.mk.inj hdrawn
  rw [← hone]
  exact hback fun j hj => by simpa [Option.mem_def.mp hj] using hanswer

end Step

end Flowchart
