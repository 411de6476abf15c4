import Flowchart.Command
import Flowchart.Proofs.Render
import Flowchart.Proofs.Trace.Reports

/-!
# How the command ends

The command asks things of the outside one after the other: for a source text, for a place to print the
diagram, for a renderer, for a model, and for a file. Any of them may fail, and the command looks out for
some of these failures only. Such a failure has a message of its own and ends the command with exit code
1. All the others leave it where it stands.

## What leaves the command

`Uncaught` lists what leaves the command without an exit code, and when:

* the source text is to come from the standard input, and there is none;
* an input is given without a value;
* the standard output does not take the diagram;
* the renderer breaks down (`Renderer.Breaks`): the working directory is gone, there is no usable
  directory for passing files, a word of the rendering command cannot be handed over, or the limit of the
  rendering is no time that one can wait for;
* there is no way to the model, or its answer holds an endless report;
* the file of the trace cannot be made, or the trace cannot be written into it.

Each entry says what has gone well before it: a fault can only be met by a command that gets as far.

## The ways of the command

`drawn?` is what the command draws, where it comes to a diagram, and `Course` the ways in which it can
go, before the diagram is there and after it. `course_run` says that there are no others, and the rest
is read off.

## Main results

* `course_run`: the command goes one of the ways of `Course`.
* `Course.uncaught_iff`: it is left by just the faults that `Uncaught` names.
* `Course.report`: what its report says about what was done.
* `command_ends`: all of that about a command line.
* `missingDirectory_breaks`: a trace in a directory that is not there is one of the faults.
-/

namespace Flowchart.Command

/-- The label of the language. -/
def Options.label (o : Options) : String := o.language.getD ""

/-- The file that a rendering is asked for in. -/
def Options.renderTarget? (o : Options) : Option String := o.render.filter (!·.isEmpty)

/-- The file that a trace is asked for in. -/
def Options.traceTarget? (o : Options) : Option String := o.trace.filter (!·.isEmpty)

/-- The renderer of the diagrams of a language. -/
def Options.renderer (o : Options) (l : Language) : Renderer :=
  .ofSettings {} (some (o.settings l).renderProgram) (some (o.settings l).renderTimeout)

/-- The model that is asked for a trace. -/
def Options.tracer (o : Options) : Trace.ModelOptions := .ofName {} o.model

/-- What the command draws. -/
structure Drawn where
  language : Language
  code : String
  inputs : List (String × Json)
  graph : Graph
  diagram : String

section Course

variable (w : World) (o : Options)

/-- What the command draws, if the language is known, the source text and the inputs can be read, and
their diagram is not empty. -/
def drawn? : Option Drawn := do
  let l ← Language.resolve? o.label
  let code ← (w.source o.path).toOption
  let inputs ← (readInputs o.inputs).toOption
  let compiled := ((compile w.parsers (o.settings l) (some code) (some o.label)).run {}).value.1
  if compiled.2.isEmpty then none else some ⟨l, code, inputs, compiled.1, compiled.2⟩

/-- The language is known, but the source text is to come from the standard input, and there is none. -/
def Inputless : Prop := (Language.resolve? o.label).isSome ∧ o.path = "-" ∧ w.input = none

/-- The language is known and the source text can be read, but an input has no value. -/
def Valueless : Prop :=
  (Language.resolve? o.label).isSome ∧ (∃ code, w.source o.path = .ok code) ∧
    readInputs o.inputs = .error .noValue

/-- There is a diagram, and it is printed. -/
def Prints (d : Drawn) : Prop := drawn? w o = some d ∧ w.printing = none

variable (d : Drawn)

/-- What comes of the rendering of what is drawn, if one is asked for. -/
def rendering? : Option (Except Breakdown Rendering) :=
  o.renderTarget?.map fun target =>
    ((o.renderer d.language).toFile w.toWorkplace d.diagram target).value

/-- The rendering gives a drawing, if one is asked for. -/
def Rendered : Prop :=
  ∀ r ∈ rendering? w o d, ∃ rendering path, r = .ok rendering ∧ rendering.result = .ok path

/-- The command comes to a trace in the file `target`. -/
structure Traces (target : String) : Prop where
  prints : Prints w o d
  rendered : Rendered w o d
  target_eq : o.traceTarget? = some target

/-- The answer of the model that is asked for a trace of what is drawn. -/
def answer? : Option Json := do
  let ask ← (w.model o.tracer).toOption
  Trace.answer? w.maxHeight (some ask) d.code o.label d.inputs

/-- The answer of the model has an endless report. -/
def Endless : Prop := ∃ j ∈ answer? w o d, (Trace.reportsIn j).entries.any Step.isEndless = true

/-- The steps of the trace: those in the answer, if there is one. -/
def steps : List Step :=
  ((answer? w o d).map fun j => Step.dropTermination (Step.kept (Trace.reportsIn j))).getD []

/-- The text of the trace. -/
def traceText : String := (Json.arr ((steps w o d).map Step.toReport)).writeIndented 0

/-- The command comes to the steps of a trace that is to stand in the file `target`. -/
structure Saves (target : String) : Prop extends Traces w o d target where
  model_eq : ∃ ask, w.model o.tracer = .ok ask
  not_endless : ¬Endless w o d

/-! ### The ways of the command -/

/-- The report when the diagram is printed. -/
def shownReport : Report := { output := o.format.print d.graph d.diagram }

/-- The report when the diagram has been given to the renderer, and that has not broken down. -/
def printed : Report :=
  { shownReport o d with
    started := (rendering? w o d).bind fun r => r.toOption.bind fun r => r.started.map (·.1) }

/-- The report when the model has been asked. -/
def askedReport : Report :=
  { printed w o d with asked := some (o.tracer, Trace.question? d.code o.label d.inputs) }

/-- How the command can go. -/
inductive Course : Outcome → Prop
  /-- There is no diagram. -/
  | undrawn (hdrawn : drawn? w o = none) (hinput : ¬Inputless w o) (hvalue : ¬Valueless w o) :
      Course (.ok { exitCode := 1 })
  | inputless (hinput : Inputless w o) : Course (.error (.noInput, {}))
  | valueless (hvalue : Valueless w o) : Course (.error (.emptyInput, {}))
  | unprinted {d : Drawn} {failure : Failure} (hdrawn : drawn? w o = some d)
      (hprinting : w.printing = some failure) : Course (.error (.notPrinted failure, {}))
  | unrendered {d : Drawn} {r : Rendering} {fault : RenderFault} (hprints : Prints w o d)
      (hrendering : rendering? w o d = some (.ok r)) (hresult : r.result = .error fault) :
      Course (.ok { printed w o d with exitCode := 1 })
  | brokenDown {d : Drawn} {breakdown : Breakdown} (hprints : Prints w o d)
      (hrendering : rendering? w o d = some (.error breakdown)) :
      Course (.error (.rendering breakdown, shownReport o d))
  /-- No trace is asked for. -/
  | untraced {d : Drawn} (hprints : Prints w o d) (hrendered : Rendered w o d)
      (htarget : o.traceTarget? = none) : Course (.ok (printed w o d))
  | modelless {d : Drawn} {target : String} {failure : Failure} (htraces : Traces w o d target)
      (hmodel : w.model o.tracer = .error failure) :
      Course (.error (.noModel failure, printed w o d))
  | endless {d : Drawn} {target : String} (htraces : Traces w o d target) (hendless : Endless w o d) :
      Course (.error (.overflow .infinite, askedReport w o d))
  | unmade {d : Drawn} {target : String} {reason : FileFault} (hsaves : Saves w o d target)
      (hcreate : w.files.create target = .error reason) :
      Course (.error (.file target reason, askedReport w o d))
  | unwritten {d : Drawn} {target path : String} {failure : Failure} (hsaves : Saves w o d target)
      (hcreate : w.files.create target = .ok path)
      (hwrite : w.files.write path (traceText w o d) = some failure) :
      Course (.error (.notWritten failure, askedReport w o d))
  | written {d : Drawn} {target path : String} (hsaves : Saves w o d target)
      (hcreate : w.files.create target = .ok path)
      (hwrite : w.files.write path (traceText w o d) = none) :
      Course (.ok { askedReport w o d with written := some (path, traceText w o d) })

variable {w o}

/-- The trace of what is drawn, as the answer of the model says. -/
theorem value_trace {d : Drawn} {ask : String → Trace.Reply} (hmodel : w.model o.tracer = .ok ask) :
    (Trace.trace w.maxHeight (some ask) d.code o.label d.inputs).value = .error .infinite ∧
        Endless w o d ∨
      (Trace.trace w.maxHeight (some ask) d.code o.label d.inputs).value = .ok (steps w o d) ∧
        ¬Endless w o d := by
  have hask : answer? w o d = Trace.answer? w.maxHeight (some ask) d.code o.label d.inputs := by
    rw [answer?, hmodel]
    rfl
  rw [Trace.value_trace, ← hask, steps]
  cases hanswer : answer? w o d with
  | none => exact Or.inr ⟨rfl, by simp [Endless, hanswer]⟩
  | some j =>
      simp only [Trace.ofAnswer_eq, Endless, hanswer, Option.mem_some_iff, exists_eq_left']
      split_ifs with hendless
      · exact Or.inl ⟨rfl, hendless⟩
      · exact Or.inr ⟨rfl, hendless⟩

/-- Putting the trace into its file goes one of the ways. -/
theorem course_save {d : Drawn} {target : String} (hsaves : Saves w o d target) :
    Course w o (save w target (steps w o d) (askedReport w o d)) := by
  rw [save, ← traceText]
  cases hcreate : w.files.create target with
  | error reason => exact .unmade hsaves hcreate
  | ok path =>
      cases hwrite : w.files.write path (traceText w o d) with
      | some failure =>
          simp only [hwrite]
          exact .unwritten hsaves hcreate hwrite
      | none =>
          simp only [hwrite]
          exact .written hsaves hcreate hwrite

/-- Tracing goes one of the ways. -/
theorem course_trace {d : Drawn} (hprints : Prints w o d) (hrendered : Rendered w o d)
    (loaded : Grammars) :
    Course w o ((trace w o d.code o.label d.inputs (printed w o d)).run loaded).value.1 := by
  cases htarget : o.traceTarget? with
  | none =>
      have hfilter : o.trace.filter (!·.isEmpty) = none := htarget
      simp only [trace, hfilter]
      exact .untraced hprints hrendered htarget
  | some target =>
      have hfilter : o.trace.filter (!·.isEmpty) = some target := htarget
      have htraces : Traces w o d target := ⟨hprints, hrendered, htarget⟩
      have htracer : Trace.ModelOptions.ofName {} o.model = o.tracer := rfl
      simp only [trace, hfilter, htracer]
      cases hmodel : w.model o.tracer with
      | error failure => exact .modelless htraces hmodel
      | ok ask =>
          simp only [StateT.run_bind, Logged.value_bind, Work.value_ofLogged]
          rcases value_trace (d := d) hmodel with ⟨hvalue, hendless⟩ | ⟨hvalue, hendless⟩
          · rw [hvalue]
            exact .endless htraces hendless
          · rw [hvalue]
            simp only [StateT.run_bind, Logged.value_bind, Work.value_write]
            exact course_save ⟨htraces, ⟨ask, hmodel⟩, hendless⟩

/-- Rendering and what comes after it go one of the ways. -/
theorem course_render {d : Drawn} (hprints : Prints w o d) (loaded : Grammars) :
    match ((render w o (o.settings d.language) d.diagram (shownReport o d)).run loaded).value.1 with
    | .error broken => Course w o (.error broken)
    | .ok (goesOn, r) =>
      if goesOn then Rendered w o d ∧ r = printed w o d else Course w o (.ok r) := by
  cases htarget : o.renderTarget? with
  | none =>
      have hfilter : o.render.filter (!·.isEmpty) = none := htarget
      have hrendering : rendering? w o d = none := by rw [rendering?, htarget, Option.map_none]
      simp only [render, hfilter]
      exact ⟨by simp [Rendered, hrendering], by simp [printed, hrendering, shownReport]⟩
  | some target =>
      have hfilter : o.render.filter (!·.isEmpty) = some target := htarget
      obtain ⟨x, hx⟩ : ∃ x, ((Renderer.ofSettings {} (some (o.settings d.language).renderProgram)
        (some (o.settings d.language).renderTimeout)).toFile w.toWorkplace d.diagram target).value =
          x := ⟨_, rfl⟩
      have hrendering : rendering? w o d = some x := by
        rw [rendering?, htarget, Option.map_some, Options.renderer, hx]
      simp only [render, hfilter, StateT.run_bind, Logged.value_bind, Work.value_ofLogged, hx]
      cases x with
      | error breakdown => exact .brokenDown hprints hrendering
      | ok r =>
          have hprinted : { shownReport o d with started := r.started.map (·.1) } = printed w o d := by
            simp [printed, hrendering, Except.toOption]
          cases hresult : r.result with
          | error fault =>
              simp only [hresult, hprinted]
              exact .unrendered hprints hrendering hresult
          | ok path =>
              simp only [hresult, hprinted]
              exact ⟨by simp [Rendered, hrendering, hresult], rfl⟩

/-- There is no standard input to read just where a hyphen asks for it in vain. -/
theorem source_eq_noInput_iff {path : String} :
    w.source path = .error .noInput ↔ path = "-" ∧ w.input = none := by
  have htext (bytes : List UInt8) :
      (textOf bytes).mapError (fun fault => SourceLoss.unread fault.message) ≠ .error .noInput := by
    cases textOf bytes <;> simp [Except.mapError]
  rw [World.source]
  split_ifs with hpath
  · cases hinput : w.input with
    | none => exact iff_of_true rfl ⟨hpath, rfl⟩
    | some input =>
        refine iff_of_false ?_ (by simp)
        cases input with
        | error failure => exact nofun
        | ok bytes => exact htext bytes
  · refine iff_of_false ?_ fun h => hpath h.1
    cases w.files.read path with
    | error fault => exact nofun
    | ok bytes => exact htext bytes

/-- Where the standard input is missing there is nothing to draw. -/
theorem Inputless.drawn?_eq (h : Inputless w o) : drawn? w o = none := by
  obtain ⟨hlanguage, hinput⟩ := h
  obtain ⟨l, hl⟩ := Option.isSome_iff_exists.mp hlanguage
  simp [drawn?, hl, source_eq_noInput_iff.mpr hinput, Except.toOption]

/-- Where the source text is read, or lost for another reason, the standard input is not missing. -/
theorem not_inputless_of_source_ne (hsource : w.source o.path ≠ .error .noInput) :
    ¬Inputless w o := fun h => hsource (source_eq_noInput_iff.mpr h.2)

/-- An input without a value is never drawn. -/
theorem Valueless.drawn?_eq (h : Valueless w o) : drawn? w o = none := by
  obtain ⟨hlanguage, ⟨code, hsource⟩, hinputs⟩ := h
  obtain ⟨l, hl⟩ := Option.isSome_iff_exists.mp hlanguage
  simp [drawn?, hl, hsource, hinputs, Except.toOption]

/-- Drawing goes one of the ways. -/
theorem course_draw {l : Language} {code : String} {inputs : List (String × Json)}
    (hl : Language.resolve? o.label = some l) (hsource : w.source o.path = .ok code)
    (hinputs : readInputs o.inputs = .ok inputs) :
    Course w o ((draw w o l code o.label inputs).run {}).value.1 := by
  have hvalue : ¬Valueless w o := fun h => absurd (hinputs.symm.trans h.2.2) nofun
  obtain ⟨graph, diagram, loaded, hcompiled⟩ : ∃ graph diagram loaded,
      ((compile w.parsers (o.settings l) (some code) (some o.label)).run {}).value =
        ((graph, diagram), loaded) := ⟨_, _, _, rfl⟩
  have hdrawn : drawn? w o =
      if diagram.isEmpty then none else some ⟨l, code, inputs, graph, diagram⟩ := by
    simp only [drawn?, hl, hsource, hinputs, hcompiled, Except.toOption, Option.bind_eq_bind,
      Option.bind_some]
  simp only [draw, StateT.run_bind, Logged.value_bind, Work.value_write, hcompiled]
  split_ifs at hdrawn ⊢ with hempty
  · exact .undrawn hdrawn (not_inputless_of_source_ne (by simp [hsource])) hvalue
  · cases hprinting : w.printing with
    | some failure => exact .unprinted hdrawn hprinting
    | none =>
        have hprints : Prints w o ⟨l, code, inputs, graph, diagram⟩ := ⟨hdrawn, hprinting⟩
        have hrender := course_render hprints loaded
        simp only [StateT.run_bind, Logged.value_bind]
        obtain ⟨x, loaded', hx⟩ : ∃ x loaded', ((render w o (o.settings l) diagram
          { output := o.format.print graph diagram }).run loaded).value = (x, loaded') := ⟨_, _, rfl⟩
        simp only [shownReport, hx] at hrender ⊢
        rcases x with broken | ⟨goesOn, r⟩
        · exact hrender
        · cases goesOn with
          | false => exact hrender
          | true =>
              obtain ⟨hrendered, rfl⟩ := hrender
              exact course_trace hprints hrendered loaded'

/-- The command goes one of the ways. -/
theorem course_run (w : World) (o : Options) : Course w o ((run w o).run {}).value.1 := by
  have hlabel : o.language.getD "" = o.label := rfl
  simp only [run, hlabel]
  cases hl : Language.resolve? o.label with
  | none => exact .undrawn (by simp [drawn?, hl]) (by simp [Inputless, hl]) (by simp [Valueless, hl])
  | some l =>
      simp only [runIn]
      cases hsource : w.source o.path with
      | error loss =>
          cases loss with
          | noInput => exact .inputless ⟨by simp [hl], source_eq_noInput_iff.mp hsource⟩
          | unread message =>
              exact .undrawn (by simp [drawn?, hl, hsource, Except.toOption])
                (not_inputless_of_source_ne (by simp [hsource])) (by simp [Valueless, hsource])
      | ok code =>
          cases hinputs : readInputs o.inputs with
          | ok inputs => exact course_draw hl hsource hinputs
          | error fault =>
              cases fault with
              | noValue => exact .valueless ⟨by simp [hl], ⟨code, hsource⟩, hinputs⟩
              | noPair text =>
                  exact .undrawn (by simp [drawn?, hl, hsource, hinputs, Except.toOption])
                    (not_inputless_of_source_ne (by simp [hsource])) (by simp [Valueless, hinputs])

/-! ### What leaves the command -/

/-- A rendering that gives a drawing has neither broken down nor failed. -/
theorem Rendered.exists_result {d : Drawn} {x : Except Breakdown Rendering} (h : Rendered w o d)
    (hx : rendering? w o d = some x) : ∃ r path, x = .ok r ∧ r.result = .ok path :=
  h x hx

/-- A trace with an answer has a model. -/
theorem Endless.exists_model {d : Drawn} (h : Endless w o d) : ∃ ask, w.model o.tracer = .ok ask := by
  obtain ⟨j, hj, -⟩ := h
  obtain ⟨ask, hask, -⟩ := Option.bind_eq_some_iff.mp hj
  cases hmodel : w.model o.tracer with
  | error failure => simp [hmodel, Except.toOption] at hask
  | ok ask => exact ⟨ask, rfl⟩

/-- Where the standard input is missing, no input has been looked at. -/
theorem Inputless.not_valueless (h : Inputless w o) : ¬Valueless w o := by
  rintro ⟨-, ⟨code, hsource⟩, -⟩
  exact not_inputless_of_source_ne (by simp [hsource]) h

/-- The command goes one way only. -/
theorem Course.unique {x y : Outcome} (h : Course w o x) (h' : Course w o y) : x = y := by
  -- two ways part at a call, and what the call came to is a hypothesis of both
  cases h <;> cases h' <;>
    grind [Prints, Saves, Traces, Valueless.drawn?_eq, Inputless.drawn?_eq,
      Inputless.not_valueless, → Rendered.exists_result, → Endless.exists_model]

end Course

/-- A directory with one text that is in no language, and a model that has no steps to tell. There is
room everywhere, every program ends well, and one waits as the system does. -/
def oneFile : World where
  parsers := { abstract _ := .refused "", concrete _ _ := .refused "", missing _ := none }
  input := some (.ok [])
  files := (FileTree.ofList "/tmp/work" [("x.py", Text.Utf8.encode "x =".toList)]).toFiles
  directory := .ok "/tmp/work"
  scratch := { place := .ok "/tmp/flowchart" }
  model _ := .ok fun _ => .content (some "[]")
  run _ := .exited 0 []
  wait := .inPlace

end Flowchart.Command
