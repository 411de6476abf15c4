import Flowchart.Session
import Mathlib.Data.List.Nodup
import Mathlib.Tactic.SplitIfs

/-!
# Runs of a session

A session runs by events, in any order: edits arrive, cancelled requests end, waits are over,
requests are served and renders finish. An event that does not fit is allowed and changes nothing,
so a run is any list of events (`Moment.after`).

`Turn` says case by case what an event does, and `turn_next` that nothing else happens. From it come
the order of the requests (`Orderly`), which holds at every moment of a run (`orderly_after`): they
are numbered from one in the order of the edits, only the newest still waits, the newest is never
cancelled, and at most one is being rendered.

## Moments and turns

A `Moment` is a session with the grammars that have been loaded, which are handed on from event to
event. An event fits the phase that its request is in (`Event.Fits`), or it does nothing to the
requests. `Turn` has a constructor for each thing that can come of an event. It says which request moves
and to which phase, and what becomes of the picture, of the error and of the count of renders.

A property of runs is proved of each constructor of `Turn` and carried over a run by
`Moment.after_induction`.

## Main results

* `turn_next`: every event does one of the things that `Turn` lists.
* `Orderly.turn`: each of them keeps the order of the requests.
* `orderly_after`: the requests are in order at every moment of a run.
-/

namespace Flowchart

/-- Whether a request has neither ended nor been told to. -/
def Phase.isLive : Phase → Bool
  | .waiting | .queued _ _ | .rendering _ _ => true
  | .cancelling | .done _ => false

/-- Whether a request is being rendered. -/
def Phase.isRendering : Phase → Bool
  | .rendering _ _ => true
  | _ => false

/-- Whether a request has ended. -/
def Phase.isDone : Phase → Bool
  | .done _ => true
  | _ => false

/-- A phase when a further edit comes. -/
def Phase.cancel : Phase → Phase
  | .waiting => .cancelling
  | p => p

/-- A phase when the cancelled requests end. -/
def Phase.finish : Phase → Phase
  | .cancelling => .done .cancelled
  | p => p

section Phases

variable (p : Phase) (graph : Graph) (diagram : String)

/-- A render that is under way is not cancelled. -/
theorem Phase.cancel_eq_rendering :
    p.cancel = .rendering graph diagram ↔ p = .rendering graph diagram := by
  cases p <;> simp [Phase.cancel]

/-- A request is being rendered after the cancelled ones have ended if it was before. -/
theorem Phase.finish_eq_rendering :
    p.finish = .rendering graph diagram ↔ p = .rendering graph diagram := by
  cases p <;> simp [Phase.finish]

/-- A request waits after the cancelled ones have ended if it did before. -/
theorem Phase.finish_eq_waiting : p.finish = .waiting ↔ p = .waiting := by
  cases p <;> simp [Phase.finish]

end Phases

/-- A request with its phase changed. -/
def Request.mapPhase (f : Phase → Phase) (r : Request) : Request := { r with phase := f r.phase }

namespace Session

/-- What can happen to a session. -/
inductive Event where
  /-- An edit arrives. -/
  | edited (code : Option String) (due : Nat)
  /-- Cancelled requests run again, and end. -/
  | cancelledEnded
  /-- A request has waited long enough for further edits. -/
  | debounced (generation : Nat)
  /-- It is a request's turn at the renderer. -/
  | served (generation due : Nat)
  /-- The render of a request is done. -/
  | rendered (generation : Nat) (result : Rendered)
  | languageSet (language : Option String)
  | stepShown (steps : List Step) (index : Int)

/-- The request that an event is a step of. -/
def Event.request? : Event → Option Nat
  | .debounced g | .served g _ | .rendered g _ => some g
  | .edited _ _ | .cancelledEnded | .languageSet _ | .stepShown _ _ => none

/-- Lets an event happen. -/
def happen (tools : Tools) (s : Session) : Event → Work Session
  | .edited code due => return s.update code due
  | .cancelledEnded => return s.noticeCancelled
  | .debounced g => s.debounced tools g
  | .served g due => s.served tools g due
  | .rendered g result => s.rendered tools g result
  | .languageSet language => return s.setLanguage language
  | .stepShown steps index => return (s.showStep steps index).2

/-- A session and the grammars that are loaded. -/
structure Moment where
  session : Session
  grammars : Grammars

namespace Moment

/-- The moment after an event. -/
def next (tools : Tools) (m : Moment) (e : Event) : Moment :=
  let result := ((m.session.happen tools e).run m.grammars).value
  ⟨result.1, result.2⟩

/-- The moment after some events. -/
def after (tools : Tools) (m : Moment) (events : List Event) : Moment := events.foldl (next tools) m

/-- The first moment of a session. -/
def opened (language : Option String) (highlighter : Option Highlighter) (grammars : Grammars) :
    Moment :=
  ⟨{ language := language, highlighter := highlighter }, grammars⟩

variable (tools : Tools) (m : Moment)

/-- A run goes on from where an earlier one ended. -/
theorem after_append (past future : List Event) :
    m.after tools (past ++ future) = (m.after tools past).after tools future :=
  List.foldl_append

/-- The last event of a run happens at the moment that the others lead to. -/
theorem after_snoc (past : List Event) (e : Event) :
    m.after tools (past ++ [e]) = (m.after tools past).next tools e :=
  after_append tools m past [e]

end Moment

/-! ### Views of a session -/

/-- What a session shows: a graph, its diagram and, if it was rendered, its drawing. -/
structure Picture where
  graph : Graph := {}
  diagram : String := ""
  svg : Option String := none
  deriving DecidableEq, Repr

/-- What the session shows. -/
def picture (s : Session) : Picture := ⟨s.graph, s.diagram, s.svg⟩

/-- Where the request of a generation stands. -/
def phase? (s : Session) (g : Nat) : Option Phase := (s.request? g).map (·.phase)

/-- The text that the request of a generation is for. -/
def code? (s : Session) (g : Nat) : Option (Option String) := (s.request? g).map (·.code)

/-- Whether the request of a generation is being rendered. -/
def Renders (s : Session) (g : Nat) : Prop :=
  ∃ graph diagram, s.phase? g = some (.rendering graph diagram)

/-- Whether a diagram is rendered before it is shown. -/
def needsRender (tools : Tools) (diagram : String) : Bool :=
  tools.hasRenderer && !diagram.isEmpty

section Views

variable {s : Session} {g j : Nat} {p : Phase}

/-- The request of a generation has that generation. -/
theorem generation_of_request? {r : Request} (h : s.request? g = some r) : r.generation = g :=
  beq_iff_eq.mp (List.find?_some (p := fun r : Request => r.generation == g) h)

/-- The phase of a generation is that of its request. -/
theorem phase?_of_request? {r : Request} (h : s.request? g = some r) : s.phase? g = some r.phase := by
  rw [phase?, h, Option.map_some]

/-- Requests are looked up in the list of requests only. -/
theorem phase?_of_requests_eq {s' : Session} (hreq : s'.requests = s.requests) (g : Nat) :
    s'.phase? g = s.phase? g := by
  rw [phase?, request?, hreq, phase?, request?]

/-- Requests are looked up by generation, so changing them otherwise changes what is found. -/
theorem find?_map_request {f : Request → Request} (hf : ∀ r, (f r).generation = r.generation)
    (rs : List Request) (g : Nat) :
    (rs.map f).find? (fun r => r.generation == g) = (rs.find? fun r => r.generation == g).map f := by
  rw [List.find?_map]
  congr 2
  funext r
  simp [hf]

end Views

/-- The session `s'` is `s` with the request of a generation in another phase, as far as requests
are concerned. -/
structure Moved (s s' : Session) (g : Nat) (p : Phase) : Prop where
  generation_eq : s'.generation = s.generation
  generations_eq : s'.requests.map (·.generation) = s.requests.map (·.generation)
  phase_self : s'.phase? g = some p
  phase_other : ∀ j, j ≠ g → s'.phase? j = s.phase? j
  code_eq : ∀ j, s'.code? j = s.code? j

/-- Rewriting the request of a generation, its generation and text aside, moves it. -/
theorem Moved.of_map {s s' : Session} {g : Nat} {p : Phase} {f : Request → Request}
    (hs : (s.phase? g).isSome) (hgen : s'.generation = s.generation)
    (hreq : s'.requests = s.requests.map fun r => if r.generation == g then f r else r)
    (hf : ∀ r, (f r).generation = r.generation ∧ (f r).code = r.code ∧ (f r).phase = p) :
    Moved s s' g p := by
  have hkeep : ∀ r : Request, (if r.generation == g then f r else r).generation = r.generation := by
    intro r
    split_ifs
    · exact (hf r).1
    · rfl
  have hfind : ∀ j, s'.request? j =
      (s.request? j).map fun r => if r.generation == g then f r else r := by
    intro j
    rw [request?, hreq, find?_map_request hkeep, request?]
  refine ⟨hgen, ?_, ?_, ?_, ?_⟩
  · rw [hreq, List.map_map]
    exact List.map_congr_left fun r _ => hkeep r
  · obtain ⟨q, hq⟩ := Option.isSome_iff_exists.mp hs
    obtain ⟨r, hr, -⟩ := Option.map_eq_some_iff.mp hq
    have hg : (r.generation == g) = true := beq_iff_eq.mpr (generation_of_request? hr)
    rw [phase?, hfind, hr, Option.map_some, Option.map_some, if_pos hg, (hf r).2.2]
  · intro j hj
    rw [phase?, phase?, hfind]
    cases hr : s.request? j with
    | none => rfl
    | some r =>
        have hg : ¬(r.generation == g) = true := by
          rw [beq_iff_eq, generation_of_request? hr]
          exact hj
        rw [Option.map_some, Option.map_some, if_neg hg, Option.map_some]
  · intro j
    rw [code?, code?, hfind]
    cases hr : s.request? j with
    | none => rfl
    | some r =>
        rw [Option.map_some, Option.map_some, Option.map_some]
        split_ifs
        · rw [(hf r).2.1]
        · rfl

/-- The session `s'` shows what `s` shows, and has started as many renders. -/
structure Still (s s' : Session) : Prop where
  picture_eq : s'.picture = s.picture
  error_eq : s'.error = s.error
  calls_eq : s'.calls = s.calls

/-! ### What an event does -/

/-- Whether there is a request in the phase for the event. -/
def Event.Fits (s : Session) : Event → Prop
  | .debounced g => s.phase? g = some .waiting
  | .served g _ => s.isRendering = false ∧
      ∃ graph diagram, s.phase? g = some (.queued graph diagram)
  | .rendered g _ => s.Renders g
  | .edited _ _ | .cancelledEnded | .languageSet _ | .stepShown _ _ => False

/-- What an event does to a session, case by case. -/
inductive Turn (tools : Tools) (m : Moment) : Event → Session → Prop
  /-- An edit brings a request. -/
  | edited (code : Option String) (due : Nat) :
      Turn tools m (.edited code due) (m.session.update code due)
  | ended : Turn tools m .cancelledEnded m.session.noticeCancelled
  /-- There is no request for the event: none moves, and the session shows what it showed. -/
  | idle {e : Event} {s' : Session} (hgen : s'.generation = m.session.generation)
      (hreq : s'.requests = m.session.requests) (hstill : Still m.session s')
      (hunfit : ¬e.Fits m.session) : Turn tools m e s'
  /-- A request that is not the newest ends without effect. -/
  | outdated {e : Event} {s' : Session} {g : Nat} {p : Phase} (he : e.request? = some g)
      (hphase : m.session.phase? g = some p) (hlive : p.isLive = true)
      (hstale : g ≠ m.session.generation) (hmoved : Moved m.session s' g (.done .nothing))
      (hstill : Still m.session s') (hfits : e.Fits m.session) : Turn tools m e s'
  /-- The newest request has waited long enough, and its text is compiled. -/
  | compiled {s' : Session} {r : Request} {graph : Graph} {diagram : String}
      (hreq : m.session.request? m.session.generation = some r) (hwaiting : r.phase = .waiting)
      (hcompile : ((compile tools.parsers {} r.code m.session.language).run m.grammars).value.1 =
        (graph, diagram))
      (hmoved : Moved m.session s' m.session.generation (.queued graph diagram))
      (hstill : Still m.session s') : Turn tools m (.debounced m.session.generation) s'
  /-- The newest request is rendered next, the renderer being free. -/
  | started {s' : Session} {graph : Graph} {diagram : String} (due : Nat)
      (hqueued : m.session.phase? m.session.generation = some (.queued graph diagram))
      (hfree : m.session.isRendering = false) (hneeds : needsRender tools diagram = true)
      (hmoved : Moved m.session s' m.session.generation (.rendering graph diagram))
      (hpicture : s'.picture = m.session.picture) (herror : s'.error = m.session.error)
      (hcalls : s'.calls = m.session.calls + 1) :
      Turn tools m (.served m.session.generation due) s'
  /-- The newest request needs no render, and is shown. -/
  | taken {s' : Session} {graph : Graph} {diagram : String} (due : Nat)
      (hqueued : m.session.phase? m.session.generation = some (.queued graph diagram))
      (hfree : m.session.isRendering = false) (hneeds : needsRender tools diagram = false)
      (hmoved : Moved m.session s' m.session.generation (.done (.diagram diagram)))
      (hpicture : s'.picture = ⟨graph, diagram, none⟩) (herror : s'.error = none)
      (hcalls : s'.calls = m.session.calls) :
      Turn tools m (.served m.session.generation due) s'
  /-- The newest request is rendered, and is shown. -/
  | drawn {s' : Session} {graph : Graph} {diagram text : String}
      (hrendering : m.session.phase? m.session.generation = some (.rendering graph diagram))
      (hmoved : Moved m.session s' m.session.generation (.done (.diagram diagram)))
      (hpicture : s'.picture = ⟨graph, diagram, some text⟩) (herror : s'.error = none)
      (hcalls : s'.calls = m.session.calls) :
      Turn tools m (.rendered m.session.generation (.svg text)) s'
  /-- The newest request could not be rendered. -/
  | failed {s' : Session} {graph : Graph} {diagram : String} (kind message : String)
      (hrendering : m.session.phase? m.session.generation = some (.rendering graph diagram))
      (hmoved : Moved m.session s' m.session.generation (.done .nothing))
      (hpicture : s'.picture = m.session.picture) (herror : s'.error = some failureMessage)
      (hcalls : s'.calls = m.session.calls) :
      Turn tools m (.rendered m.session.generation (.failed kind message)) s'

namespace Turn

variable {tools : Tools} {m : Moment}

/-- Nothing happens. -/
theorem refl {e : Event} (hunfit : ¬e.Fits m.session) : Turn tools m e m.session :=
  .idle rfl rfl ⟨rfl, rfl, rfl⟩ hunfit

/-- A request that is not the newest ends. -/
theorem setPhase_nothing {e : Event} {g : Nat} {r : Request} (he : e.request? = some g)
    (hreq : m.session.request? g = some r) (hlive : r.phase.isLive = true)
    (hstale : m.session.isStale g = true) (hfits : e.Fits m.session) (renders : Nat) :
    Turn tools m e (({ m.session with renders := renders }).setPhase g (.done .nothing)) := by
  have hphase := phase?_of_request? hreq
  refine .outdated he hphase hlive (by simpa [isStale] using hstale) ?_ ⟨rfl, rfl, rfl⟩ hfits
  exact Moved.of_map (by simp [hphase]) rfl rfl fun r => ⟨rfl, rfl, rfl⟩

end Turn

/-- Telling the highlighter changes the highlighter only. -/
theorem notify_eq (s : Session) (tools : Tools) (svg : Option String) (graph : Graph)
    (loaded : Grammars) : ∃ highlighter,
      ((s.notify tools svg graph).run loaded).value.1 = { s with highlighter := highlighter } := by
  unfold notify
  split
  · split_ifs
    · exact ⟨s.highlighter, rfl⟩
    · split
      · exact ⟨s.highlighter, rfl⟩
      · exact ⟨some _, rfl⟩
  · exact ⟨s.highlighter, rfl⟩

section Events

variable (tools : Tools) (m : Moment)

/-- What happens when a wait is over. -/
theorem turn_debounced (g : Nat) :
    Turn tools m (.debounced g) ((m.session.debounced tools g).run m.grammars).value.1 := by
  rw [debounced]
  cases hreq : m.session.request? g with
  | none => exact Turn.refl (by simp [Event.Fits, phase?, hreq])
  | some r =>
      obtain ⟨gen, code, phase, due⟩ := r
      cases phase with
      | waiting =>
          by_cases hstale : m.session.isStale g = true
          · simp only [hstale, if_true]
            have hfits : (Event.debounced g).Fits m.session := phase?_of_request? hreq
            exact Turn.setPhase_nothing rfl hreq rfl hstale hfits m.session.renders
          · simp only [hstale]
            obtain rfl : g = m.session.generation := by simpa [isStale] using hstale
            exact .compiled hreq rfl rfl (Moved.of_map (by simp [phase?, hreq]) rfl rfl
              fun r => ⟨rfl, rfl, rfl⟩) ⟨rfl, rfl, rfl⟩
      | cancelling | queued graph diagram | rendering graph diagram | done outcome =>
          exact Turn.refl (by simp [Event.Fits, phase?, hreq])

/-- Taking a result moves its request and shows it. -/
theorem commit_spec (s : Session) (g : Nat) (graph : Graph) (diagram : String)
    (svg : Option String) (loaded : Grammars) (hphase : (s.phase? g).isSome) :
    let s' := ((s.commit tools g graph diagram svg).run loaded).value.1
    Moved s s' g (.done (.diagram diagram)) ∧ s'.picture = ⟨graph, diagram, svg⟩ ∧
      s'.error = none ∧ s'.calls = s.calls := by
  intro s'
  obtain ⟨highlighter, hs'⟩ := notify_eq (Session.setPhase
    { s with graph := graph, diagram := diagram, svg := svg, error := none } g
      (.done (.diagram diagram))) tools svg graph loaded
  have hs' : s' = _ := hs'
  rw [hs']
  exact ⟨Moved.of_map hphase rfl rfl fun r => ⟨rfl, rfl, rfl⟩, rfl, rfl, rfl⟩

/-- What happens when a request is served. -/
theorem turn_served (g due : Nat) :
    Turn tools m (.served g due) ((m.session.served tools g due).run m.grammars).value.1 := by
  rw [served]
  cases hreq : m.session.request? g with
  | none => exact Turn.refl (by simp [Event.Fits, phase?, hreq])
  | some r =>
      obtain ⟨gen, code, phase, due'⟩ := r
      cases phase with
      | queued graph diagram =>
          have hphase : m.session.phase? g = some (.queued graph diagram) := phase?_of_request? hreq
          by_cases hbusy : m.session.isRendering = true
          · simp only [hbusy, if_true]
            exact Turn.refl fun hfits => absurd (hbusy.symm.trans hfits.1) Bool.noConfusion
          have hfree : m.session.isRendering = false := Bool.not_eq_true _ ▸ hbusy
          by_cases hstale : m.session.isStale g = true
          · simp only [hbusy, hstale, if_true]
            have hfits : (Event.served g due).Fits m.session := ⟨hfree, graph, diagram, hphase⟩
            exact Turn.setPhase_nothing rfl hreq rfl hstale hfits m.session.renders
          obtain rfl : g = m.session.generation := by simpa [isStale] using hstale
          by_cases hneeds : needsRender tools diagram = true
          · have hneeds' : (tools.hasRenderer && !diagram.isEmpty) = true := hneeds
            simp only [hbusy, hstale, hneeds', if_true]
            exact .started due hphase hfree hneeds
              (Moved.of_map (by simp [hphase]) rfl rfl fun r => ⟨rfl, rfl, rfl⟩) rfl rfl rfl
          · have hneeds' : ¬(tools.hasRenderer && !diagram.isEmpty) = true := hneeds
            simp only [hbusy, hstale, hneeds']
            obtain ⟨hmoved, hpicture, herror, hcalls⟩ :=
              commit_spec tools m.session m.session.generation graph diagram none m.grammars
                (by simp [hphase])
            exact .taken due hphase hfree (by simpa using hneeds) hmoved hpicture herror hcalls
      | cancelling | waiting | rendering graph diagram | done outcome =>
          exact Turn.refl (by simp [Event.Fits, phase?, hreq])

/-- What happens when a render finishes. -/
theorem turn_rendered (g : Nat) (result : Rendered) :
    Turn tools m (.rendered g result) ((m.session.rendered tools g result).run m.grammars).value.1 := by
  rw [rendered]
  cases hreq : m.session.request? g with
  | none => exact Turn.refl (by simp [Event.Fits, Renders, phase?, hreq])
  | some r =>
      obtain ⟨gen, code, phase, due⟩ := r
      cases phase with
      | rendering graph diagram =>
          have hphase : m.session.phase? g = some (.rendering graph diagram) := phase?_of_request? hreq
          by_cases hstale : m.session.isStale g = true
          · have hfits : (Event.rendered g result).Fits m.session := ⟨graph, diagram, hphase⟩
            cases result with
            | failed kind message =>
                simp only [hstale, if_true]
                exact Turn.setPhase_nothing rfl hreq rfl hstale hfits m.session.renders
            | svg text =>
                have hstale' : isStale { m.session with renders := m.session.renders + 1 } g = true :=
                  hstale
                simp only [hstale', if_true]
                exact Turn.setPhase_nothing rfl hreq rfl hstale hfits (m.session.renders + 1)
          obtain rfl : g = m.session.generation := by simpa [isStale] using hstale
          cases result with
          | failed kind message =>
              simp only [hstale]
              exact .failed kind message hphase
                (Moved.of_map (by simp [hphase]) rfl rfl fun r => ⟨rfl, rfl, rfl⟩) rfl rfl rfl
          | svg text =>
              have hstale' : ¬isStale { m.session with renders := m.session.renders + 1 }
                  m.session.generation = true := hstale
              have hsome : (m.session.phase? m.session.generation).isSome := by simp [hphase]
              simp only [hstale']
              obtain ⟨hmoved, hpicture, herror, hcalls⟩ :=
                commit_spec tools { m.session with renders := m.session.renders + 1 }
                  m.session.generation graph diagram (some text) m.grammars hsome
              exact .drawn hphase ⟨hmoved.1, hmoved.2, hmoved.3, hmoved.4, hmoved.5⟩ hpicture herror
                hcalls
      | cancelling | waiting | queued graph diagram | done outcome =>
          exact Turn.refl (by simp [Event.Fits, Renders, phase?, hreq])

/-- Showing a step changes the highlighter only. -/
theorem showStep_eq (s : Session) (steps : List Step) (index : Int) :
    ∃ highlighter, (s.showStep steps index).2 = { s with highlighter := highlighter } := by
  unfold showStep
  split
  · exact ⟨some _, rfl⟩
  · exact ⟨s.highlighter, rfl⟩

/-- Whatever happens to a session is one of the cases. -/
theorem turn_next (e : Event) : Turn tools m e (m.next tools e).session := by
  cases e with
  | edited code due => exact .edited code due
  | cancelledEnded => exact .ended
  | debounced g => exact turn_debounced tools m g
  | served g due => exact turn_served tools m g due
  | rendered g result => exact turn_rendered tools m g result
  | languageSet language => exact .idle rfl rfl ⟨rfl, rfl, rfl⟩ id
  | stepShown steps index =>
      obtain ⟨highlighter, hs'⟩ := showStep_eq m.session steps index
      have hs' : (m.next tools (.stepShown steps index)).session = _ := hs'
      rw [hs']
      exact .idle rfl rfl ⟨rfl, rfl, rfl⟩ id

end Events

/-! ### The order of requests -/

/-- When cancelled requests end, each request moves on by itself. -/
theorem noticeCancelled_requests (s : Session) :
    s.noticeCancelled.requests = s.requests.map (Request.mapPhase .finish) := by
  refine List.map_congr_left fun r _ => ?_
  obtain ⟨g, code, phase, due⟩ := r
  cases phase <;> rfl

/-- An edit cancels what can be cancelled and brings a request. -/
theorem update_requests (s : Session) (code : Option String) (due : Nat) :
    (s.update code due).requests = s.requests.map (Request.mapPhase .cancel) ++
      [⟨s.generation + 1, code, .waiting, due⟩] := by
  refine congrArg (· ++ _) (List.map_congr_left fun r _ => ?_)
  obtain ⟨g, code, phase, due⟩ := r
  cases phase <;> rfl

/-- The request of a generation after the cancelled ones have ended. -/
theorem noticeCancelled_request? (s : Session) (g : Nat) :
    s.noticeCancelled.request? g = (s.request? g).map (Request.mapPhase .finish) := by
  rw [request?, noticeCancelled_requests]
  exact find?_map_request (f := Request.mapPhase .finish) (fun _ => rfl) s.requests g

/-- The phase of a generation after the cancelled requests have ended. -/
theorem noticeCancelled_phase? (s : Session) (g : Nat) :
    s.noticeCancelled.phase? g = (s.phase? g).map Phase.finish := by
  rw [phase?, noticeCancelled_request?, Option.map_map, phase?, Option.map_map]
  rfl

/-- No render starts when cancelled requests end. -/
theorem renders_of_noticeCancelled {s : Session} {g : Nat} (h : s.noticeCancelled.Renders g) :
    s.Renders g := by
  obtain ⟨graph, diagram, hg⟩ := h
  rw [noticeCancelled_phase?, Option.map_eq_some_iff] at hg
  obtain ⟨p, hp, hfinish⟩ := hg
  exact ⟨graph, diagram, hp.trans (congrArg some ((p.finish_eq_rendering graph diagram).mp hfinish))⟩

/-- What holds of the requests of a session at every moment. -/
structure Orderly (s : Session) : Prop where
  /-- Requests are numbered from one in the order of the edits. -/
  generations : s.requests.map (·.generation) = List.range' 1 s.generation
  waiting_newest : ∀ g, s.phase? g = some .waiting → g = s.generation
  newest_kept : ∀ p, s.phase? s.generation = some p → p ≠ .cancelling ∧ p ≠ .done .cancelled
  one_renders : ∀ g j, s.Renders g → s.Renders j → g = j

namespace Orderly

variable {s s' : Session}

/-- A request stands under its generation. -/
theorem request?_of_mem (h : s.Orderly) {r : Request} (hr : r ∈ s.requests) :
    s.request? r.generation = some r := by
  have hnodup : (s.requests.map (·.generation)).Nodup := h.generations ▸ List.nodup_range'
  obtain ⟨q, hq⟩ : ∃ q, s.request? r.generation = some q := by
    rw [← Option.isSome_iff_exists, request?, List.find?_isSome]
    exact ⟨r, hr, beq_self_eq_true _⟩
  have hmem : q ∈ s.requests := List.mem_of_find?_eq_some hq
  rw [hq, List.inj_on_of_nodup_map hnodup hmem hr (generation_of_request? hq)]

/-- There is a request for every generation up to the newest, and for no other. -/
theorem isSome_phase? (h : s.Orderly) {g : Nat} :
    (s.phase? g).isSome ↔ 1 ≤ g ∧ g ≤ s.generation := by
  have hmem : g ∈ s.requests.map (·.generation) ↔ 1 ≤ g ∧ g ≤ s.generation := by
    rw [h.generations, List.mem_range'_1]
    omega
  rw [← hmem, phase?, Option.isSome_map, request?, List.find?_isSome, List.mem_map]
  simp only [beq_iff_eq]

/-- The generations that have a request are numbered from one to the newest. -/
theorem le_of_phase? (h : s.Orderly) {g : Nat} {p : Phase} (hp : s.phase? g = some p) :
    1 ≤ g ∧ g ≤ s.generation := h.isSome_phase?.mp (by simp [hp])

/-- The request of an edit waits, and those before it are told to end if they wait. -/
theorem update_request? (h : s.Orderly) (code : Option String) (due g : Nat) :
    (s.update code due).request? g =
      if g = s.generation + 1 then some ⟨s.generation + 1, code, .waiting, due⟩
      else (s.request? g).map (Request.mapPhase .cancel) := by
  have hmap : (s.requests.map (Request.mapPhase .cancel)).find? (fun r => r.generation == g) =
      (s.request? g).map (Request.mapPhase .cancel) :=
    find?_map_request (f := Request.mapPhase .cancel) (fun _ => rfl) s.requests g
  rw [request?, update_requests, List.find?_append, hmap]
  split_ifs with hg
  · have hnone : s.request? g = none := by
      have : ¬(s.phase? g).isSome := by
        rw [h.isSome_phase?]
        omega
      simpa [phase?] using this
    rw [hnone, Option.map_none, Option.none_or, List.find?_singleton]
    simp [hg]
  · rw [List.find?_singleton]
    have hne : ¬(s.generation + 1 == g) = true := by
      rw [beq_iff_eq]
      exact fun h => hg h.symm
    rw [if_neg hne, Option.or_none]

/-- After an edit the new request waits, and the others may be cancelled. -/
theorem update_phase? (h : s.Orderly) (code : Option String) (due g : Nat) :
    (s.update code due).phase? g =
      if g = s.generation + 1 then some .waiting else (s.phase? g).map Phase.cancel := by
  rw [phase?, h.update_request?, phase?]
  split_ifs
  · rfl
  · rw [Option.map_map, Option.map_map]
    rfl

/-- No render starts when an edit arrives. -/
theorem renders_of_update (h : s.Orderly) {code : Option String} {due g : Nat}
    (hg : (s.update code due).Renders g) : s.Renders g := by
  obtain ⟨graph, diagram, hg⟩ := hg
  rw [h.update_phase?] at hg
  split_ifs at hg with hnew
  · exact absurd (Option.some.inj hg) Phase.noConfusion
  · obtain ⟨p, hp, hcancel⟩ := Option.map_eq_some_iff.mp hg
    exact ⟨graph, diagram,
      hp.trans (congrArg some ((p.cancel_eq_rendering graph diagram).mp hcancel))⟩

/-- A session without requests. -/
theorem of_empty (hgen : s.generation = 0) (hreq : s.requests = []) : s.Orderly := by
  have hnone : ∀ g, s.phase? g = none := fun g => by rw [phase?, request?, hreq]; rfl
  refine ⟨by rw [hgen, hreq]; rfl, ?_, ?_, ?_⟩
  · intro g hg
    exact absurd hg (by simp [hnone])
  · intro p hp
    exact absurd hp (by simp [hnone])
  · rintro g j ⟨graph, diagram, hg⟩ -
    exact absurd hg (by simp [hnone])

/-- While no request is being rendered, none is. -/
theorem not_renders_of_free (hfree : s.isRendering = false) (g : Nat) : ¬s.Renders g := by
  rintro ⟨graph, diagram, hg⟩
  obtain ⟨r, hr, hphase⟩ := Option.map_eq_some_iff.mp hg
  have hall := List.any_eq_false.mp hfree r (List.mem_of_find?_eq_some hr)
  simp [hphase] at hall

/-- An edit keeps the order of the requests. -/
theorem update (h : s.Orderly) (code : Option String) (due : Nat) :
    (s.update code due).Orderly := by
  refine ⟨?_, ?_, ?_, ?_⟩
  · have hgen : (s.update code due).generation = s.generation + 1 := rfl
    rw [update_requests, List.map_append, List.map_map, hgen, List.range'_concat]
    congr 1
    · exact h.generations
    · simp [Nat.add_comm]
  · intro g hg
    rw [h.update_phase?] at hg
    split_ifs at hg with hnew
    · exact hnew
    · obtain ⟨q, -, hq⟩ := Option.map_eq_some_iff.mp hg
      cases q <;> simp [Phase.cancel] at hq
  · intro p hp
    rw [h.update_phase?, show (s.update code due).generation = s.generation + 1 from rfl, if_pos rfl]
      at hp
    obtain rfl := Option.some.inj hp
    exact ⟨Phase.noConfusion, Phase.noConfusion⟩
  · intro g j hg hj
    exact h.one_renders g j (h.renders_of_update hg) (h.renders_of_update hj)

/-- The end of cancelled requests keeps the order of the requests. -/
theorem noticeCancelled (h : s.Orderly) : s.noticeCancelled.Orderly := by
  refine ⟨?_, ?_, ?_, ?_⟩
  · rw [noticeCancelled_requests, List.map_map]
    exact h.generations
  · intro g hg
    rw [noticeCancelled_phase?] at hg
    obtain ⟨p, hp, hfinish⟩ := Option.map_eq_some_iff.mp hg
    exact h.waiting_newest g (hp.trans (congrArg some (p.finish_eq_waiting.mp hfinish)))
  · intro p hp
    rw [noticeCancelled_phase?] at hp
    obtain ⟨q, hq, rfl⟩ := Option.map_eq_some_iff.mp hp
    have hkept := h.newest_kept q hq
    cases q <;> simp_all [Phase.finish]
  · intro g j hg hj
    exact h.one_renders g j (renders_of_noticeCancelled hg) (renders_of_noticeCancelled hj)

/-- Only the newest generation and the list of requests count. -/
theorem of_requests_eq (h : s.Orderly) (hgen : s'.generation = s.generation)
    (hreq : s'.requests = s.requests) : s'.Orderly := by
  have hphase := phase?_of_requests_eq hreq
  have hrenders : ∀ g, s'.Renders g ↔ s.Renders g := fun g => by rw [Renders, hphase, Renders]
  refine ⟨?_, ?_, ?_, ?_⟩
  · rw [hreq, hgen, h.generations]
  · intro g hg
    rw [hgen, h.waiting_newest g (hphase g ▸ hg)]
  · intro p hp
    rw [hgen, hphase] at hp
    exact h.newest_kept p hp
  · intro g j hg hj
    exact h.one_renders g j ((hrenders g).mp hg) ((hrenders j).mp hj)

/-- A request may move to a phase in which it neither waits nor is cancelled; to be rendered, only
when none is. -/
theorem moved (h : s.Orderly) {g : Nat} {p : Phase} (hm : Moved s s' g p) (hwaiting : p ≠ .waiting)
    (hkept : p ≠ .cancelling ∧ p ≠ .done .cancelled)
    (hfree : p.isRendering = true → s.isRendering = false) : s'.Orderly := by
  have hphase : ∀ {j q}, s'.phase? j = some q → q = p ∨ s.phase? j = some q := by
    intro j q hq
    by_cases hj : j = g
    · subst hj
      rw [hm.phase_self] at hq
      exact Or.inl (Option.some.inj hq).symm
    · rw [hm.phase_other j hj] at hq
      exact Or.inr hq
  refine ⟨?_, ?_, ?_, ?_⟩
  · rw [hm.generations_eq, hm.generation_eq, h.generations]
  · intro j hj
    rw [hm.generation_eq]
    exact (hphase hj).elim (fun heq => absurd heq.symm hwaiting) (h.waiting_newest j)
  · intro q hq
    rw [hm.generation_eq] at hq
    exact (hphase hq).elim (fun heq => heq ▸ hkept) (h.newest_kept q)
  · rintro i j ⟨graph, diagram, hi⟩ ⟨graph', diagram', hj⟩
    by_cases hp : p.isRendering = true
    · -- the renderer was free, so both are the request that moves
      have hself : ∀ {k graph diagram}, s'.phase? k = some (.rendering graph diagram) → k = g := by
        intro k graph diagram hk
        by_contra hne
        rw [hm.phase_other k hne] at hk
        exact not_renders_of_free (hfree hp) k ⟨graph, diagram, hk⟩
      rw [hself hi, hself hj]
    · have hold : ∀ {k graph diagram}, s'.phase? k = some (.rendering graph diagram) →
          s.phase? k = some (.rendering graph diagram) := by
        intro k graph diagram hk
        exact (hphase hk).resolve_left fun heq => hp (heq ▸ rfl)
      exact h.one_renders i j ⟨graph, diagram, hold hi⟩ ⟨graph', diagram', hold hj⟩

/-- Whatever happens, the requests stay in order. -/
theorem turn (tools : Tools) {m : Moment} {e : Event} (h : m.session.Orderly)
    (ht : Turn tools m e s') : s'.Orderly := by
  have hfree : ∀ {p : Phase}, p.isRendering = false → p.isRendering = true →
      m.session.isRendering = false := fun h h' => absurd (h.symm.trans h') Bool.noConfusion
  cases ht with
  | edited code due => exact h.update code due
  | ended => exact h.noticeCancelled
  | idle hgen hreq _ _ => exact h.of_requests_eq hgen hreq
  | outdated _ _ _ _ hmoved _ _ => exact h.moved hmoved (by simp) (by simp) (hfree rfl)
  | compiled _ _ _ hmoved _ => exact h.moved hmoved (by simp) (by simp) (hfree rfl)
  | started _ _ hidle _ hmoved _ _ _ => exact h.moved hmoved (by simp) (by simp) fun _ => hidle
  | taken _ _ _ _ hmoved _ _ _ => exact h.moved hmoved (by simp) (by simp) (hfree rfl)
  | drawn _ hmoved _ _ _ => exact h.moved hmoved (by simp) (by simp) (hfree rfl)
  | failed _ _ _ hmoved _ _ _ => exact h.moved hmoved (by simp) (by simp) (hfree rfl)

end Orderly

/-- What holds of a session and is kept by every event holds after any events. -/
theorem Moment.after_induction (tools : Tools) {P : Moment → Prop} {m : Moment}
    (h : P m) (hnext : ∀ m e, P m → P (m.next tools e)) (events : List Event) :
    P (m.after tools events) := by
  induction events generalizing m with
  | nil => exact h
  | cons e events ih => exact ih (hnext m e h)

/-- At every moment of a run the requests are in order. -/
theorem orderly_after (tools : Tools) {m : Moment} (h : m.session.Orderly) (events : List Event) :
    (m.after tools events).session.Orderly :=
  Moment.after_induction (P := fun m => m.session.Orderly) tools h
    (fun m e h => h.turn tools (turn_next tools m e)) events

/-- A session that has just been opened has no requests. -/
theorem orderly_opened (language : Option String) (highlighter : Option Highlighter)
    (grammars : Grammars) : (Moment.opened language highlighter grammars).session.Orderly :=
  Orderly.of_empty rfl rfl

end Session

end Flowchart
