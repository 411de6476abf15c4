import Flowchart.Proofs.Session.Commits

/-!
# What a session comes to

When all requests have ended, the session shows what the latest edit comes to, whatever the schedule
was: its compiled text and its drawing, or the failure of its render beside the last result before.

`Course` says how the newest request came to its phase: when it left its wait and was compiled, and,
once it has ended, what was written then. It holds at every moment (`course_after`), since a request
that is not the newest writes nothing and the newest is never cancelled. `outcome_of_latest` reads it
off at the end.

## The course of the newest request

`Course` tells the ways in which the newest request can have come to its phase: when its text was
compiled, whether it had to be rendered, what came of the render, and what is shown since. An event
continues a course or starts a new one (`Course.turn`), and there is a lemma for each kind of step that
a request can make (`Course.goesOn_started`, `Course.goesOn_taken` and so on). In the end the phase is
one that is done, and its course says what the session shows.

## Main results

* `Course.turn`: one event continues the course of the newest request, one case each.
* `course_after`: so at every moment of a run there is such a course.
* `outcome_of_latest`: what the session shows when all requests have ended.
-/

namespace Flowchart

namespace Session

/-- The text of the last edit. -/
def latestCode? : List Event → Option (Option String) :=
  List.foldl (fun latest e => match e with
    | .edited code _ => some code
    | _ => latest) none

/-- The text of an edit is the latest one. -/
theorem latestCode?_snoc_edited (past : List Event) (code : Option String) (due : Nat) :
    latestCode? (past ++ [.edited code due]) = some code := by
  rw [latestCode?, List.foldl_append]
  rfl

/-- Other events leave the latest text. -/
theorem latestCode?_snoc (past : List Event) {e : Event} (he : ∀ code due, e ≠ .edited code due) :
    latestCode? (past ++ [e]) = latestCode? past := by
  rw [latestCode?, List.foldl_append]
  cases e with
  | edited code due => exact absurd rfl (he code due)
  | cancelledEnded | debounced _ | served _ _ | rendered _ _ | languageSet _ | stepShown _ _ => rfl

section Runs

variable (tools : Tools) (start : Moment)

/-- In the course of the events the request `g` left its wait, and `code` was compiled in the language
then in force. -/
def Compiled (events : List Event) (g : Nat) (code : Option String) (graph : Graph)
    (diagram : String) : Prop :=
  ∃ past future, events = past ++ .debounced g :: future ∧
    let m := start.after tools past
    m.session.phase? g = some .waiting ∧
      ((compile tools.parsers {} code m.session.language).run m.grammars).value.1 = (graph, diagram)

/-- In the course of the events the render of the request `g` was done. -/
def RenderDone (events : List Event) (g : Nat) (graph : Graph) (diagram : String)
    (result : Rendered) : Prop :=
  ∃ past future, events = past ++ .rendered g result :: future ∧
    (start.after tools past).session.phase? g = some (.rendering graph diagram)

/-- How the newest request of the session `s`, for `code`, came to its phase. -/
inductive Course (events : List Event) (s : Session) (code : Option String) : Phase → Prop
  | waiting : Course events s code .waiting
  | queued {graph : Graph} {diagram : String}
      (hcompiled : Compiled tools start events s.generation code graph diagram) :
      Course events s code (.queued graph diagram)
  | rendering {graph : Graph} {diagram : String}
      (hcompiled : Compiled tools start events s.generation code graph diagram)
      (hneeds : needsRender tools diagram = true) : Course events s code (.rendering graph diagram)
  | unrendered {graph : Graph} {diagram : String}
      (hcompiled : Compiled tools start events s.generation code graph diagram)
      (hneeds : needsRender tools diagram = false) (hpicture : s.picture = ⟨graph, diagram, none⟩)
      (herror : s.error = none) : Course events s code (.done (.diagram diagram))
  | drawn {graph : Graph} {diagram text : String}
      (hcompiled : Compiled tools start events s.generation code graph diagram)
      (hneeds : needsRender tools diagram = true)
      (hdone : RenderDone tools start events s.generation graph diagram (.svg text))
      (hpicture : s.picture = ⟨graph, diagram, some text⟩) (herror : s.error = none) :
      Course events s code (.done (.diagram diagram))
  | failed {graph : Graph} {diagram kind message : String}
      (hcompiled : Compiled tools start events s.generation code graph diagram)
      (hneeds : needsRender tools diagram = true)
      (hdone : RenderDone tools start events s.generation graph diagram (.failed kind message))
      (hearlier : ∀ c ∈ commits tools start events, c.generation < s.generation)
      (herror : s.error = some failureMessage) : Course events s code (.done .nothing)

variable {tools start} {events : List Event} {s s' : Session} {code : Option String}

/-- What was compiled in the course of some events was compiled in the course of more. -/
theorem Compiled.snoc {g : Nat} {graph : Graph} {diagram : String}
    (h : Compiled tools start events g code graph diagram) (e : Event) :
    Compiled tools start (events ++ [e]) g code graph diagram := by
  obtain ⟨past, future, rfl, hm⟩ := h
  exact ⟨past, future ++ [e], by simp, hm⟩

/-- A render that was done was done in the course of more events. -/
theorem RenderDone.snoc {g : Nat} {graph : Graph} {diagram : String} {result : Rendered}
    (h : RenderDone tools start events g graph diagram result) (e : Event) :
    RenderDone tools start (events ++ [e]) g graph diagram result := by
  obtain ⟨past, future, rfl, hm⟩ := h
  exact ⟨past, future ++ [e], by simp, hm⟩

/-- An event that writes nothing leaves the course of the newest request as it was. -/
theorem Course.snoc {p : Phase} (h : Course tools start events s code p) {e : Event}
    (hgen : s'.generation = s.generation) (hpicture : s'.picture = s.picture)
    (herror : s'.error = s.error)
    (hcommits : commits tools start (events ++ [e]) = commits tools start events) :
    Course tools start (events ++ [e]) s' code p := by
  cases h with
  | waiting => exact .waiting
  | queued hc => exact .queued (hgen ▸ hc.snoc e)
  | rendering hc hneeds => exact .rendering (hgen ▸ hc.snoc e) hneeds
  | unrendered hc hneeds hp he =>
      exact .unrendered (hgen ▸ hc.snoc e) hneeds (hpicture.trans hp) (herror.trans he)
  | drawn hc hneeds hd hp he =>
      exact .drawn (hgen ▸ hc.snoc e) hneeds (hgen ▸ hd.snoc e) (hpicture.trans hp) (herror.trans he)
  | failed hc hneeds hd hearlier he =>
      refine .failed (hgen ▸ hc.snoc e) hneeds (hgen ▸ hd.snoc e) ?_ (herror.trans he)
      rwa [hcommits, hgen]

end Runs

section Runs

variable (tools : Tools) {start : Moment}

/-- Events other than edits leave the text of every request as it is. -/
theorem Turn.code?_eq {tools : Tools} {m : Moment} {e : Event} {s' : Session}
    (ht : Turn tools m e s') (he : ∀ code due, e ≠ .edited code due) (g : Nat) :
    s'.code? g = m.session.code? g := by
  cases ht with
  | edited code due => exact absurd rfl (he code due)
  | ended =>
      rw [code?, noticeCancelled_request?, Option.map_map]
      rfl
  | idle _ hreq _ _ => rw [code?, request?, hreq, code?, request?]
  | outdated _ _ _ _ hmoved _ _ | compiled _ _ _ hmoved _ | started _ _ _ _ hmoved _ _ _
  | taken _ _ _ _ hmoved _ _ _ | drawn _ hmoved _ _ _ | failed _ _ _ hmoved _ _ _ =>
      exact hmoved.code_eq g

/-- Where the newest request stays in its phase, nothing is entered into the ledger. -/
theorem newlyCommitted_of_phase_eq {m : Moment} {e : Event} {s' : Session} (h : m.session.Orderly)
    (ht : Turn tools m e s')
    (hphase : s'.phase? m.session.generation = m.session.phase? m.session.generation) :
    newlyCommitted m.session s' = [] := by
  rcases (ht.writes h).newlyCommitted_eq with ⟨hnew, -⟩ | hnew
  · exact hnew
  · have hmem := List.mem_singleton_self m.session.generation
    rw [← hnew, newlyCommitted, List.mem_filter, committed, hphase, ← committed,
      Bool.and_not_self] at hmem
    exact absurd hmem.2 Bool.noConfusion

/-- When requests that are cancelled end, the newest one stays in its phase. -/
theorem noticeCancelled_phase?_newest {s : Session} {p : Phase} (h : s.Orderly)
    (hp : s.phase? s.generation = some p) : s.noticeCancelled.phase? s.generation = some p := by
  have hkept : p.finish = p := by
    have hlive := (h.newest_kept p hp).1
    cases p with
    | cancelling => exact absurd rfl hlive
    | _ => rfl
  rw [noticeCancelled_phase?, hp, Option.map_some, hkept]

/-- Where a session stands after an event: the newest request is still the newest, and some course
led to its phase. -/
def GoesOn (start : Moment) (past : List Event) (e : Event) (s s' : Session)
    (code : Option String) : Prop :=
  s'.generation = s.generation ∧ ∃ p, s'.phase? s.generation = some p ∧
    Course tools start (past ++ [e]) s' code p

variable {past : List Event} {e : Event} {m : Moment} {s' : Session} {code : Option String}
  {graph : Graph} {diagram : String} {p : Phase}

/-- An event that leaves the newest request and what is shown as they are. -/
theorem Course.goesOn_still (hcourse : Course tools start past m.session code p)
    (hgen : s'.generation = m.session.generation)
    (hphase : s'.phase? m.session.generation = some p) (hpicture : s'.picture = m.session.picture)
    (herror : s'.error = m.session.error)
    (hcommits : commits tools start (past ++ [e]) = commits tools start past) :
    GoesOn tools start past e m.session s' code :=
  ⟨hgen, p, hphase, hcourse.snoc hgen hpicture herror hcommits⟩

/-- The newest request has waited long enough: from here on it was compiled at this moment. -/
theorem goesOn_compiled {r : Request} (hm : m = start.after tools past)
    (hreq : m.session.request? m.session.generation = some r) (hwaiting : r.phase = .waiting)
    (hcompile : ((compile tools.parsers {} r.code m.session.language).run m.grammars).value.1 =
      (graph, diagram))
    (hmoved : Moved m.session s' m.session.generation (.queued graph diagram)) :
    GoesOn tools start past (.debounced m.session.generation) m.session s' r.code := by
  refine ⟨hmoved.generation_eq, _, hmoved.phase_self, .queued ?_⟩
  rw [hmoved.generation_eq]
  refine ⟨past, [], rfl, ?_⟩
  rw [← hm]
  exact ⟨(phase?_of_request? hreq).trans (congrArg some hwaiting), hcompile⟩

/-- The render of the newest request starts, the diagram being one that needs a render. -/
theorem Course.goesOn_started (hcourse : Course tools start past m.session code (.queued graph diagram))
    (hneeds : needsRender tools diagram = true)
    (hmoved : Moved m.session s' m.session.generation (.rendering graph diagram)) :
    GoesOn tools start past e m.session s' code := by
  cases hcourse with
  | queued hcompiled =>
      refine ⟨hmoved.generation_eq, _, hmoved.phase_self, .rendering ?_ hneeds⟩
      rw [hmoved.generation_eq]
      exact hcompiled.snoc e

/-- The newest request is shown without a drawing, the diagram being one that needs none. -/
theorem Course.goesOn_taken (hcourse : Course tools start past m.session code (.queued graph diagram))
    (hneeds : needsRender tools diagram = false)
    (hmoved : Moved m.session s' m.session.generation (.done (.diagram diagram)))
    (hpicture : s'.picture = ⟨graph, diagram, none⟩) (herror : s'.error = none) :
    GoesOn tools start past e m.session s' code := by
  cases hcourse with
  | queued hcompiled =>
      refine ⟨hmoved.generation_eq, _, hmoved.phase_self, .unrendered ?_ hneeds hpicture herror⟩
      rw [hmoved.generation_eq]
      exact hcompiled.snoc e

/-- The newest request is shown with the drawing that was made at this moment. -/
theorem Course.goesOn_drawn {text : String} (hm : m = start.after tools past)
    (hcourse : Course tools start past m.session code (.rendering graph diagram))
    (hrendering : m.session.phase? m.session.generation = some (.rendering graph diagram))
    (hmoved : Moved m.session s' m.session.generation (.done (.diagram diagram)))
    (hpicture : s'.picture = ⟨graph, diagram, some text⟩) (herror : s'.error = none) :
    GoesOn tools start past (.rendered m.session.generation (.svg text)) m.session s' code := by
  cases hcourse with
  | rendering hcompiled hneeds =>
      refine ⟨hmoved.generation_eq, _, hmoved.phase_self, .drawn ?_ hneeds ?_ hpicture herror⟩
      · rw [hmoved.generation_eq]
        exact hcompiled.snoc _
      · rw [hmoved.generation_eq]
        exact ⟨past, [], rfl, hm ▸ hrendering⟩

/-- Whatever was committed before the newest request has ended was committed for an earlier one. -/
theorem lt_of_mem_commits (h : m.session.Orderly)
    (hledger : ∀ c ∈ commits tools start past, m.session.committed c.generation = true)
    (hrendering : m.session.phase? m.session.generation = some (.rendering graph diagram)) :
    ∀ c ∈ commits tools start past, c.generation < m.session.generation := by
  intro c hc
  obtain ⟨drawn, hdone⟩ := committed_iff.mp (hledger c hc)
  refine Nat.lt_of_le_of_ne (h.le_of_phase? hdone).2 fun heq => ?_
  rw [heq, hrendering] at hdone
  exact absurd (Option.some.inj hdone) Phase.noConfusion

/-- The newest request could not be rendered, and the failure is reported at this moment. -/
theorem Course.goesOn_failed {kind message : String} (hm : m = start.after tools past)
    (hcourse : Course tools start past m.session code (.rendering graph diagram))
    (hrendering : m.session.phase? m.session.generation = some (.rendering graph diagram))
    (hmoved : Moved m.session s' m.session.generation (.done .nothing))
    (herror : s'.error = some failureMessage)
    (hearlier : ∀ c ∈ commits tools start
      (past ++ [.rendered m.session.generation (.failed kind message)]),
      c.generation < m.session.generation) :
    GoesOn tools start past (.rendered m.session.generation (.failed kind message)) m.session s'
      code := by
  cases hcourse with
  | rendering hcompiled hneeds =>
      have hdone : RenderDone tools start
          (past ++ [.rendered m.session.generation (.failed kind message)]) s'.generation graph
          diagram (.failed kind message) := by
        rw [hmoved.generation_eq]
        exact ⟨past, [], rfl, hm ▸ hrendering⟩
      refine ⟨hmoved.generation_eq, _, hmoved.phase_self, .failed ?_ hneeds hdone ?_ herror⟩
      · rw [hmoved.generation_eq]
        exact hcompiled.snoc _
      · rwa [hmoved.generation_eq]

/-- The course of the newest request goes on with every event that is no edit. -/
theorem Course.turn (hm : m = start.after tools past)
    (hcommits : commits tools start (past ++ [e]) =
      commits tools start past ++ (newlyCommitted m.session s').map (⟨·, s'.picture⟩))
    (ht : Turn tools m e s') (h : m.session.Orderly) (he : ∀ code due, e ≠ .edited code due)
    (hledger : ∀ c ∈ commits tools start past, m.session.committed c.generation = true)
    (hcode : m.session.code? m.session.generation = some code)
    (hp : m.session.phase? m.session.generation = some p)
    (hcourse : Course tools start past m.session code p) :
    GoesOn tools start past e m.session s' code := by
  have hsame : s'.phase? m.session.generation = m.session.phase? m.session.generation →
      commits tools start (past ++ [e]) = commits tools start past := fun hphase => by
    rw [hcommits, newlyCommitted_of_phase_eq tools h ht hphase, List.map_nil, List.append_nil]
  cases ht with
  | edited code due => exact absurd rfl (he code due)
  | ended =>
      have hphase := noticeCancelled_phase?_newest h hp
      exact hcourse.goesOn_still tools rfl hphase rfl rfl (hsame (hphase.trans hp.symm))
  | idle hgen hreq hstill _ =>
      have hphase := phase?_of_requests_eq hreq m.session.generation
      exact hcourse.goesOn_still tools hgen (hphase.trans hp) hstill.picture_eq hstill.error_eq
        (hsame hphase)
  | outdated _ _ _ hstale hmoved hstill _ =>
      have hphase := hmoved.phase_other _ hstale.symm
      exact hcourse.goesOn_still tools hmoved.generation_eq (hphase.trans hp) hstill.picture_eq
        hstill.error_eq (hsame hphase)
  | compiled hreq hwaiting hcompile hmoved _ =>
      rw [code?, hreq, Option.map_some] at hcode
      obtain rfl := Option.some.inj hcode
      exact goesOn_compiled tools hm hreq hwaiting hcompile hmoved
  | started due hqueued _ hneeds hmoved _ _ _ =>
      obtain rfl := Option.some.inj (hp.symm.trans hqueued)
      exact hcourse.goesOn_started tools hneeds hmoved
  | taken due hqueued _ hneeds hmoved hpicture herror _ =>
      obtain rfl := Option.some.inj (hp.symm.trans hqueued)
      exact hcourse.goesOn_taken tools hneeds hmoved hpicture herror
  | drawn hrendering hmoved hpicture herror _ =>
      obtain rfl := Option.some.inj (hp.symm.trans hrendering)
      exact hcourse.goesOn_drawn tools hm hrendering hmoved hpicture herror
  | failed kind message hrendering hmoved _ herror _ =>
      obtain rfl := Option.some.inj (hp.symm.trans hrendering)
      refine hcourse.goesOn_failed tools hm hrendering hmoved herror ?_
      rw [hcommits, newlyCommitted_eq_nil_of_moved rfl hmoved, List.map_nil, List.append_nil]
      exact lt_of_mem_commits tools h hledger hrendering

/-- At every moment after an edit, the newest request is for the text of the last edit, and its
course led to where it stands. -/
theorem course_after (h : start.session.Orderly) (hpicture : start.session.picture = {})
    (events : List Event) {code : Option String} (hcode : latestCode? events = some code) :
    let s := (start.after tools events).session
    s.code? s.generation = some code ∧
      ∃ p, s.phase? s.generation = some p ∧ Course tools start events s code p := by
  induction events using List.reverseRecOn generalizing code with
  | nil => exact absurd hcode (by simp [latestCode?])
  | append_singleton past e ih =>
      have horderly := orderly_after tools h past
      have hturn := turn_next tools (start.after tools past) e
      rw [Moment.after_snoc]
      by_cases he : ∃ code due, e = .edited code due
      · obtain ⟨code', due, rfl⟩ := he
        rw [latestCode?_snoc_edited] at hcode
        obtain rfl := Option.some.inj hcode
        refine ⟨?_, .waiting, ?_, .waiting⟩
        · rw [code?]
          exact congrArg _ ((horderly.update_request? code' due _).trans (if_pos rfl))
        · exact (horderly.update_phase? code' due _).trans (if_pos rfl)
      · have he : ∀ code due, e ≠ .edited code due := fun code due heq => he ⟨code, due, heq⟩
        rw [latestCode?_snoc past he] at hcode
        obtain ⟨hnewest, p, hp, hcourse⟩ := ih hcode
        obtain ⟨hgen, p', hp', hcourse'⟩ := Course.turn tools rfl (commits_snoc tools start past e)
          hturn horderly he (ledger_after tools h hpicture past).1 hnewest hp hcourse
        intro s
        have hgen : s.generation = (start.after tools past).session.generation := hgen
        refine ⟨?_, p', hgen ▸ hp', hcourse'⟩
        rw [hgen]
        exact (hturn.code?_eq he _).trans hnewest

/-- After the events the session shows what `code` comes to, which the newest request is for. At some
moment that request left its wait and `code` was compiled in the language then in force. If that needs
no render, the session shows it without a drawing. Otherwise its render was done at a later moment:
the session shows it with the drawing, or it reports the failure and shows what was committed last,
for an earlier edit, or nothing if nothing was. -/
def ShowsLatest (start : Moment) (events : List Event) (code : Option String) : Prop :=
  let s := (start.after tools events).session
  ∃ graph diagram, Compiled tools start events s.generation code graph diagram ∧
    (needsRender tools diagram = false →
      s.picture = ⟨graph, diagram, none⟩ ∧ s.error = none) ∧
    (needsRender tools diagram = true →
      ∃ result, RenderDone tools start events s.generation graph diagram result ∧
        match result with
        | .svg text => s.picture = ⟨graph, diagram, some text⟩ ∧ s.error = none
        | .failed _ _ =>
          s.error = some failureMessage ∧
            s.picture = ((commits tools start events).getLast?.map (·.picture)).getD {} ∧
            ∀ c ∈ commits tools start events, c.generation < s.generation)

/-- When all requests have ended after an edit, the session shows what the last edit comes to, however
the events fell. -/
theorem outcome_of_latest (language : Option String) (highlighter : Option Highlighter)
    (grammars : Grammars) (events : List Event) (code : Option String)
    (hended : ∀ r ∈ ((Moment.opened language highlighter grammars).after tools events).session.requests,
      r.phase.isDone = true)
    (hlatest : latestCode? events = some code) :
    ShowsLatest tools (Moment.opened language highlighter grammars) events code := by
  have hstart := orderly_opened language highlighter grammars
  obtain ⟨-, p, hp, hcourse⟩ := course_after tools hstart rfl events hlatest
  have hdone : p.isDone = true := by
    obtain ⟨r, hr, rfl⟩ := Option.map_eq_some_iff.mp hp
    exact hended r (List.mem_of_find?_eq_some hr)
  cases hcourse with
  | waiting | queued | rendering => exact absurd hdone Bool.noConfusion
  | @unrendered graph diagram hcompiled hneeds hpicture herror =>
      exact ⟨graph, diagram, hcompiled, fun _ => ⟨hpicture, herror⟩,
        fun h => absurd (hneeds.symm.trans h) Bool.noConfusion⟩
  | @drawn graph diagram text hcompiled hneeds hrender hpicture herror =>
      exact ⟨graph, diagram, hcompiled, fun h => absurd (h.symm.trans hneeds) Bool.noConfusion,
        fun _ => ⟨.svg text, hrender, hpicture, herror⟩⟩
  | @failed graph diagram kind message hcompiled hneeds hrender hearlier herror =>
      have hlast := (ledger_after tools hstart rfl events).2.2
      exact ⟨graph, diagram, hcompiled, fun h => absurd (h.symm.trans hneeds) Bool.noConfusion,
        fun _ => ⟨.failed kind message, hrender, herror, hlast, hearlier⟩⟩

end Runs

/-! ### A run in which the last render fails -/

/-- Parsers that refuse every text, beside a renderer: every text has a diagram, the fallback. -/
def refusingTools : Tools where
  parsers :=
    { abstract := fun _ => .refused "invalid syntax"
      missing := fun _ => none
      concrete := fun _ _ => .refused "invalid syntax" }
  hasRenderer := true
  parseSvg := fun _ => none

/-- The first edit is shown, the second is overtaken while it queues, and the render of the third
fails. -/
def overtakenRun : List Event :=
  [.edited (some "a") 1, .debounced 1, .served 1 2, .rendered 1 (.svg "<svg/>"),
    .edited (some "b") 3, .debounced 2, .edited (some "c") 4, .served 2 5, .debounced 3, .served 3 6,
    .rendered 3 (.failed "RenderError" "no browser")]

/-- All requests of this run end, and the picture of the first edit is left. -/
theorem overtakenRun_ends :
    let s := ((Moment.opened (some "python") none {}).after refusingTools overtakenRun).session
    (∀ r ∈ s.requests, r.phase.isDone = true) ∧ s.error = some failureMessage ∧
      s.picture = ⟨{}, Diagram.fallback, some "<svg/>"⟩ := by
  decide +kernel

/-- The session reports the failure of the third edit and shows the first one. -/
theorem outcome_of_overtakenRun :
    let start := Moment.opened (some "python") none {}
    let s := (start.after refusingTools overtakenRun).session
    (∀ r ∈ s.requests, r.phase.isDone = true) ∧ latestCode? overtakenRun = some (some "c") ∧
      ShowsLatest refusingTools start overtakenRun (some "c") ∧
      s.error = some failureMessage ∧ s.picture = ⟨{}, Diagram.fallback, some "<svg/>"⟩ :=
  ⟨overtakenRun_ends.1, rfl,
    outcome_of_latest refusingTools (some "python") none {} overtakenRun (some "c")
      overtakenRun_ends.1 rfl,
    overtakenRun_ends.2.1, overtakenRun_ends.2.2⟩

end Session

end Flowchart
