import Flowchart.Compile
import Flowchart.Highlight
import Flowchart.Trace

/-!
# Editor sessions

A session keeps the diagram of a source text that is being edited. Every edit is a *request* with a
generation number. A request first waits for further edits, which cancel it; then its text is
compiled, and it queues for the renderer, which serves one request at a time. A request that is no
longer the newest when it is served, or when its render is done, changes nothing.

The state changes by events: an edit arrives (`update`), a request has waited long enough
(`debounced`), it is its turn at the renderer (`served`), its render is done (`rendered`). An event
for a request that is not in the phase for it changes nothing. Which event comes when is not decided
here.
-/

namespace Flowchart

/-- How a request ended: it was cancelled, it changed nothing, or its diagram was taken. -/
inductive Outcome where
  | cancelled
  | nothing
  | diagram (text : String)
  deriving DecidableEq, Repr

/-- Where a request stands. -/
inductive Phase where
  /-- It waits for further edits. -/
  | waiting
  /-- A further edit came; it ends as soon as it runs again. -/
  | cancelling
  /-- It is compiled and queues for the renderer. -/
  | queued (graph : Graph) (diagram : String)
  /-- It is being rendered. -/
  | rendering (graph : Graph) (diagram : String)
  | done (outcome : Outcome)
  deriving DecidableEq, Repr

/-- A request for the diagram of a text. -/
structure Request where
  generation : Nat
  code : Option String
  phase : Phase := .waiting
  /-- When its present wait is over: for further edits, or for the renderer. -/
  due : Nat := 0
  deriving DecidableEq, Repr

/-- What a render comes to: a drawing as text, or a failure of some kind. -/
inductive Rendered where
  | svg (text : String)
  | failed (kind message : String)
  deriving DecidableEq, Repr

/-- The programs a session works with: the parsers of source texts, whether there is a renderer, and
the parser of drawings. -/
structure Tools where
  parsers : Parsers
  hasRenderer : Bool
  parseSvg : String → Option Element

/-- A session. -/
structure Session where
  language : Option String
  highlighter : Option Highlighter := none
  generation : Nat := 0
  graph : Graph := {}
  diagram : String := ""
  svg : Option String := none
  error : Option String := none
  /-- How many renders were started, and how many gave a drawing. -/
  calls : Nat := 0
  renders : Nat := 0
  requests : List Request := []

namespace Session

/-- What is shown when the newest diagram could not be rendered. -/
def failureMessage : String := "Diagram failed to render. Try simpler code or retry."

variable (s : Session)

/-- Whether a request is no longer the newest. -/
def isStale (generation : Nat) : Bool := generation != s.generation

/-- The request of a generation. -/
def request? (generation : Nat) : Option Request :=
  s.requests.find? fun r => r.generation == generation

/-- Changes the request of a generation. -/
def setPhase (generation : Nat) (phase : Phase) : Session :=
  { s with requests := s.requests.map fun r =>
      if r.generation == generation then { r with phase := phase } else r }

/-- A waiting request that is cancelled; others stay as they are. -/
def cancelWaiting (r : Request) : Request :=
  match r.phase with
  | .waiting => { r with phase := .cancelling }
  | _ => r

/-- Whether a request is being rendered. -/
def isRendering : Bool :=
  s.requests.any fun r => match r.phase with
    | .rendering _ _ => true
    | _ => false

/-! ### Events -/

/-- An edit arrives: requests that still wait are cancelled, and a new one waits until `due`. -/
def update (code : Option String) (due : Nat) : Session :=
  { s with
    generation := s.generation + 1
    requests := s.requests.map cancelWaiting ++ [⟨s.generation + 1, code, .waiting, due⟩] }

/-- Cancelled requests end. -/
def noticeCancelled : Session :=
  { s with requests := s.requests.map fun r => match r.phase with
      | .cancelling => { r with phase := .done .cancelled }
      | _ => r }

/-- A request has waited long enough: its text is compiled, in the language now in force. -/
def debounced (tools : Tools) (generation : Nat) : Work Session := do
  match s.request? generation with
  | some ⟨_, code, .waiting, _⟩ =>
    if s.isStale generation then return s.setPhase generation (.done .nothing)
    else
      let (graph, diagram) ← compile tools.parsers {} code s.language
      return s.setPhase generation (.queued graph diagram)
  | _ => return s

/-- The language of the texts to come changes. -/
def setLanguage (language : Option String) : Session := { s with language := language }

/-- Tells the highlighter of a new drawing. -/
def notify (tools : Tools) (svg : Option String) (graph : Graph) : Work Session :=
  match s.highlighter, svg with
  | some h, some text =>
    if text.isEmpty then return s
    else
      match tools.parseSvg text with
      | none => do
        Work.write .warning "[WARN] [RENDER] Rendered SVG is not parseable"
        return s
      | some drawing => return { s with highlighter := some (h.graphReady drawing graph) }
  | _, _ => return s

/-- Takes the result of a request. -/
def commit (tools : Tools) (generation : Nat) (graph : Graph) (diagram : String)
    (svg : Option String) : Work Session :=
  let s := { s with graph := graph, diagram := diagram, svg := svg, error := none }
  (s.setPhase generation (.done (.diagram diagram))).notify tools svg graph

/-- It is a request's turn at the renderer. If there is something to render, that starts and will be
done at `due`. -/
def served (tools : Tools) (generation : Nat) (due : Nat) : Work Session := do
  match s.request? generation with
  | some ⟨_, _, .queued graph diagram, _⟩ =>
    if s.isRendering then return s
    else if s.isStale generation then return s.setPhase generation (.done .nothing)
    else if tools.hasRenderer && !diagram.isEmpty then
      return { s with
        calls := s.calls + 1
        requests := s.requests.map fun r =>
          if r.generation == generation then
            { r with phase := .rendering graph diagram, due := due }
          else r }
    else s.commit tools generation graph diagram none
  | _ => return s

/-- A request's render is done. -/
def rendered (tools : Tools) (generation : Nat) (result : Rendered) : Work Session := do
  match s.request? generation with
  | some ⟨_, _, .rendering graph diagram, _⟩ =>
    match result with
    | .failed kind message =>
      Work.write .warning ("[WARN] [RENDER] " ++ kind ++ ": " ++ message)
      let s := if s.isStale generation then s else { s with error := some failureMessage }
      return s.setPhase generation (.done .nothing)
    | .svg text =>
      let s := { s with renders := s.renders + 1 }
      if s.isStale generation then
        Work.write .debug
          ("[RENDER] Discarding stale diagram (generation " ++ toString generation ++ ")")
        return s.setPhase generation (.done .nothing)
      else s.commit tools generation graph diagram (some text)
  | _ => return s

/-! ### Steps of a trace -/

/-- The variables to show with step `index` of a trace: in languages whose traces report changes only,
those of all steps up to this one. -/
def variablesAt (steps : List Step) (index : Nat) : List (String × Variable) :=
  let accumulates := ((languageOf s.language).map (·.accumulatesVariables)).getD false
  if accumulates then Step.accumulate (steps.take (index + 1))
  else ((steps[index]?).map (·.scope)).getD []

/-- Shows a step of a trace, if there is a highlighter and such a step; gives the nodes that show it. -/
def showStep (steps : List Step) (index : Int) : List String × Session :=
  match s.highlighter, if index < 0 then none else steps[index.toNat]? with
  | some h, some step =>
    let scope := s.variablesAt steps index.toNat
    let h := h.showStep step.line (scope.map fun (name, v) => (name, v.value))
    (h.shown, { s with highlighter := some h })
  | _, _ => ([], s)

end Session

end Flowchart
