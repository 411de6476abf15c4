import Flowchart.Proofs.Session.Outcome
import Flowchart.Session.Clock
import Mathlib.Algebra.Order.BigOperators.Group.List
import Mathlib.Algebra.Order.Ring.Nat

/-!
# Sessions in time

What happens to a session in time happens by events, so a session in time is at every moment one that a
run leads to (`runs_useAll`), and what holds of runs holds of it.

Time does not stop either. No request queues while the renderer is free (`Tended`), so as long as one
has not ended there is an event to come, and each event brings a request nearer to its end
(`steps_lt_of_fits`). The number of steps to the end is the fuel of `runUntil`, which is therefore
always enough: when a session has waited until nothing waits any more, all its requests have ended
(`ended_waitUntilIdle`).

## Time and order

A session in time does nothing that a session of events does not do: time only decides which of the
events that fit comes next. So what is known of runs holds of it once its moments are known to be
moments of runs (`Passes`). What remains is that it comes to an end. For that each phase has a number of
steps to its end (`Phase.steps`), no event but an edit raises the sum of them, and an event that fits
lowers it.

## Main results

* `runs_useAll`: a session in time goes through moments of runs.
* `steps_lt_of_fits`: an event that fits brings the session nearer to its end.
* `exists_happen`: as long as a request has not ended there is an event to come.
* `ended_waitUntilIdle`: when nothing waits any more, all requests have ended.
-/

namespace Flowchart

/-- How many events a request has ahead of it at most. -/
def Phase.steps : Phase → Nat
  | .waiting => 2
  | .queued _ _ | .rendering _ _ => 1
  | .cancelling | .done _ => 0

/-- A later phase is no further from the end. -/
theorem Phase.Follows.steps_le {p p' : Phase} (h : p.Follows p') : p'.steps ≤ p.steps := by
  cases h with
  | refl => exact Nat.le_refl _
  | cancelled | ended | compiled | started | taken | drawn | dropped => simp [Phase.steps]

/-- Whether a request may come to a phase by an event. -/
def Session.Event.leadsTo : Session.Event → Phase → Bool
  | .debounced _, .queued _ _ | .served _ _, .rendering _ _ => true
  | .debounced _, .done _ | .served _ _, .done _ | .rendered _ _, .done _ => true
  | _, _ => false

namespace Session

variable {tools : Tools} {m : Moment} {e : Event} {s s' : Session} {g : Nat}

/-! ### Requests that move -/

/-- The request of an event moves if there is one for it, and otherwise none does. -/
theorem Turn.moved_or_unmoved (ht : Turn tools m e s') (he : e.request? = some g) :
    (e.Fits m.session ∧ ∃ p, e.leadsTo p = true ∧ Moved m.session s' g p) ∨
      (¬e.Fits m.session ∧ s'.generation = m.session.generation ∧
        s'.requests = m.session.requests) := by
  cases ht with
  | edited code due | ended => exact absurd he (by simp [Event.request?])
  | idle hgen hreq _ hunfit => exact Or.inr ⟨hunfit, hgen, hreq⟩
  | outdated he' _ _ _ hmoved _ hfits =>
      obtain rfl := Option.some.inj (he.symm.trans he')
      refine Or.inl ⟨hfits, _, ?_, hmoved⟩
      cases e with
      | debounced _ | served _ _ | rendered _ _ => rfl
      | edited _ _ | cancelledEnded | languageSet _ | stepShown _ _ => exact hfits.elim
  | compiled hreq hwaiting _ hmoved _ =>
      obtain rfl := Option.some.inj he
      exact Or.inl ⟨(phase?_of_request? hreq).trans (congrArg some hwaiting), _, rfl, hmoved⟩
  | started _ hqueued hfree _ hmoved _ _ _ =>
      obtain rfl := Option.some.inj he
      exact Or.inl ⟨⟨hfree, _, _, hqueued⟩, _, rfl, hmoved⟩
  | taken _ hqueued hfree _ hmoved _ _ _ =>
      obtain rfl := Option.some.inj he
      exact Or.inl ⟨⟨hfree, _, _, hqueued⟩, _, rfl, hmoved⟩
  | drawn hrendering hmoved _ _ _ =>
      obtain rfl := Option.some.inj he
      exact Or.inl ⟨⟨_, _, hrendering⟩, _, rfl, hmoved⟩
  | failed _ _ hrendering hmoved _ _ _ =>
      obtain rfl := Option.some.inj he
      exact Or.inl ⟨⟨_, _, hrendering⟩, _, rfl, hmoved⟩

/-! ### Steps to the end -/

/-- How many events a session has ahead of it at most. -/
def steps (s : Session) : Nat := (s.requests.map fun r => r.phase.steps).sum

/-- The steps of a session are those of its requests, one for each generation. -/
theorem Orderly.steps_eq (h : s.Orderly) :
    s.steps = ((List.range' 1 s.generation).map fun g => (s.phase? g).elim 0 Phase.steps).sum := by
  rw [steps, ← h.generations, List.map_map]
  refine congrArg List.sum (List.map_congr_left fun r hr => ?_)
  rw [Function.comp_apply, phase?_of_request? (h.request?_of_mem hr), Option.elim_some]

/-- No request has more steps ahead of it after an event. -/
theorem Turn.steps_le_at (ht : Turn tools m e s') (h : m.session.Orderly) {j : Nat}
    (hj : j ∈ List.range' 1 m.session.generation) :
    (s'.phase? j).elim 0 Phase.steps ≤ (m.session.phase? j).elim 0 Phase.steps := by
  rw [List.mem_range'_1] at hj
  obtain ⟨q, hq⟩ := Option.isSome_iff_exists.mp (h.isSome_phase?.mpr ⟨hj.1, by omega⟩)
  obtain ⟨q', hq', hfollows⟩ := ht.follows h hq
  rw [hq, hq']
  exact hfollows.steps_le

/-- An event for a request brings no request further from its end. -/
theorem steps_le_of_request (h : m.session.Orderly) (he : e.request? = some g) :
    (m.next tools e).session.steps ≤ m.session.steps := by
  have ht := turn_next tools m e
  have hgen : (m.next tools e).session.generation = m.session.generation := by
    rcases ht.moved_or_unmoved he with ⟨-, p, -, hmoved⟩ | ⟨-, hgen, -⟩
    · exact hmoved.generation_eq
    · exact hgen
  rw [(h.turn tools ht).steps_eq, hgen, h.steps_eq]
  exact List.sum_le_sum fun j hj => ht.steps_le_at h hj

/-- An event that finds its request brings it nearer to its end; being served is no step. -/
theorem steps_lt_of_fits (h : m.session.Orderly) (he : e.request? = some g)
    (hfits : e.Fits m.session) (hserved : ∀ g due, e ≠ .served g due) :
    (m.next tools e).session.steps < m.session.steps := by
  have ht := turn_next tools m e
  obtain ⟨-, p, hleads, hmoved⟩ := (ht.moved_or_unmoved he).resolve_right fun hunfit => hunfit.1 hfits
  obtain ⟨q, hq, hlt⟩ : ∃ q, m.session.phase? g = some q ∧ p.steps < q.steps := by
    cases e with
    | served j due => exact absurd rfl (hserved j due)
    | debounced j =>
        obtain rfl := Option.some.inj he
        refine ⟨.waiting, hfits, ?_⟩
        cases p <;> simp [Event.leadsTo, Phase.steps] at hleads ⊢
    | rendered j result =>
        obtain rfl := Option.some.inj he
        obtain ⟨graph, diagram, hrendering⟩ := hfits
        refine ⟨.rendering graph diagram, hrendering, ?_⟩
        cases p <;> simp [Event.leadsTo, Phase.steps] at hleads ⊢
    | edited _ _ | cancelledEnded | languageSet _ | stepShown _ _ => exact hfits.elim
  rw [(h.turn tools ht).steps_eq, hmoved.generation_eq, h.steps_eq]
  refine List.sum_lt_sum _ _ (fun j hj => ht.steps_le_at h hj) ⟨g, ?_, ?_⟩
  · have := h.le_of_phase? hq
    rw [List.mem_range'_1]
    omega
  · rw [hmoved.phase_self, hq]
    exact hlt

/-! ### Requests that queue -/

/-- Whether the renderer is busy depends on the requests alone. -/
theorem isRendering_of_requests_eq (hreq : s'.requests = s.requests) :
    s'.isRendering = s.isRendering := by
  rw [isRendering, hreq, isRendering]

/-- If the request of a generation queues, the renderer is not free. -/
def Attended (s : Session) (g : Nat) : Prop :=
  ∀ graph diagram, s.phase? g = some (.queued graph diagram) → s.isRendering = true

/-- A request that was served is attended. -/
theorem attended_served (tools : Tools) (m : Moment) (g due : Nat) :
    (m.next tools (.served g due)).session.Attended g := by
  intro graph diagram hqueued
  rcases (turn_next tools m (.served g due)).moved_or_unmoved rfl with
    ⟨-, p, hleads, hmoved⟩ | ⟨hunfit, -, hreq⟩
  · obtain rfl := Option.some.inj (hmoved.phase_self.symm.trans hqueued)
    exact absurd hleads Bool.noConfusion
  · rw [isRendering_of_requests_eq hreq]
    by_contra hbusy
    rw [phase?_of_requests_eq hreq] at hqueued
    exact hunfit ⟨Bool.not_eq_true _ ▸ hbusy, graph, diagram, hqueued⟩

/-- Serving a request leaves the others attended. -/
theorem Attended.served {j : Nat} (h : m.session.Attended j) (tools : Tools) (g due : Nat) :
    (m.next tools (.served g due)).session.Attended j := by
  by_cases hj : j = g
  · exact hj ▸ attended_served tools m g due
  intro graph diagram hqueued
  rcases (turn_next tools m (.served g due)).moved_or_unmoved rfl with
    ⟨hfits, p, -, hmoved⟩ | ⟨-, -, hreq⟩
  · rw [hmoved.phase_other j hj] at hqueued
    exact absurd (hfits.1.symm.trans (h graph diagram hqueued)) Bool.noConfusion
  · rw [isRendering_of_requests_eq hreq]
    exact h graph diagram (phase?_of_requests_eq hreq j ▸ hqueued)

/-- The requests are in order, and none queues while the renderer is free. -/
structure Tended (s : Session) : Prop where
  orderly : s.Orderly
  attended : ∀ g, s.Attended g

/-- No request is told to end and has not. -/
def IsAwake (s : Session) : Prop := ∀ g, s.phase? g ≠ some .cancelling

/-- An event for a request tells none to end. -/
theorem IsAwake.next (h : m.session.IsAwake) (he : e.request? = some g) :
    (m.next tools e).session.IsAwake := by
  intro j hj
  rcases (turn_next tools m e).moved_or_unmoved he with ⟨-, p, hleads, hmoved⟩ | ⟨-, -, hreq⟩
  · by_cases hjg : j = g
    · subst hjg
      obtain rfl := Option.some.inj (hmoved.phase_self.symm.trans hj)
      cases e <;> exact absurd hleads Bool.noConfusion
    · exact h j (hmoved.phase_other j hjg ▸ hj)
  · exact h j (phase?_of_requests_eq hreq j ▸ hj)

/-- Serving all requests that are not attended leaves the session tended. -/
theorem tended_after_served (tools : Tools) {events : List Event} (h : m.session.Orderly)
    (hawake : m.session.IsAwake) (hserved : ∀ e ∈ events, ∃ g due, e = .served g due)
    (hall : ∀ g, m.session.Attended g ∨ ∃ due, .served g due ∈ events) :
    let s' := (m.after tools events).session
    s'.Tended ∧ s'.IsAwake ∧ s'.steps ≤ m.session.steps := by
  induction events generalizing m with
  | nil => exact ⟨⟨h, fun g => (hall g).resolve_right (by simp)⟩, hawake, Nat.le_refl _⟩
  | cons e events ih =>
      obtain ⟨j, due, rfl⟩ := hserved e List.mem_cons_self
      have hall' : ∀ g, (m.next tools (.served j due)).session.Attended g ∨
          ∃ due, .served g due ∈ events := fun g => by
        rcases hall g with hattended | ⟨due', hmem⟩
        · exact Or.inl (hattended.served tools j due)
        · rcases List.mem_cons.mp hmem with heq | hmem
          · obtain ⟨rfl, rfl⟩ := Event.served.inj heq
            exact Or.inl (attended_served tools m _ _)
          · exact Or.inr ⟨due', hmem⟩
      obtain ⟨htended, hawake', hsteps⟩ := ih (h.turn tools (turn_next tools m _)) (hawake.next rfl)
        (fun e he => hserved e (List.mem_cons_of_mem _ he)) hall'
      exact ⟨htended, hawake', Nat.le_trans hsteps (steps_le_of_request h rfl)⟩

/-- The renderer is busy while a request is being rendered. -/
theorem isRendering_of_renders (h : s.Renders g) : s.isRendering = true := by
  by_contra hfree
  exact Orderly.not_renders_of_free (Bool.not_eq_true _ ▸ hfree) g h

/-- A busy renderer renders some request. -/
theorem Orderly.exists_renders (h : s.Orderly) (hbusy : s.isRendering = true) : ∃ g, s.Renders g := by
  obtain ⟨r, hr, hrendering⟩ := List.any_eq_true.mp hbusy
  have hphase := phase?_of_request? (h.request?_of_mem hr)
  obtain ⟨g, code, phase, due⟩ := r
  cases phase with
  | rendering graph diagram => exact ⟨g, graph, diagram, hphase⟩
  | waiting | cancelling | queued _ _ | done _ => exact absurd hrendering Bool.noConfusion

/-- Requests stay attended if no further one queues and those that are rendered still are. -/
theorem Tended.of_phases (h : s.Tended) (h' : s'.Orderly)
    (hqueued : ∀ g graph diagram, s'.phase? g = some (.queued graph diagram) →
      s.phase? g = some (.queued graph diagram))
    (hrenders : ∀ g, s.Renders g → s'.Renders g) : s'.Tended where
  orderly := h'
  attended := fun g graph diagram hg => by
    obtain ⟨j, hj⟩ := h.orderly.exists_renders (h.attended g graph diagram (hqueued g _ _ hg))
    exact isRendering_of_renders (hrenders j hj)

/-- After an edit no request queues while the renderer is free. -/
theorem Tended.update (h : s.Tended) (code : Option String) (due : Nat) :
    (s.update code due).Tended := by
  refine h.of_phases (h.orderly.update code due) ?_ ?_
  · intro g graph diagram hg
    rw [h.orderly.update_phase?] at hg
    split_ifs at hg
    · exact absurd (Option.some.inj hg) Phase.noConfusion
    · obtain ⟨p, hp, hcancel⟩ := Option.map_eq_some_iff.mp hg
      rw [hp]
      cases p <;> simp_all [Phase.cancel]
  · rintro g ⟨graph, diagram, hg⟩
    have hne : g ≠ s.generation + 1 := by
      have := h.orderly.le_of_phase? hg
      omega
    exact ⟨graph, diagram, by rw [h.orderly.update_phase?, if_neg hne, hg]; rfl⟩

/-- Neither does one when cancelled requests have ended. -/
theorem Tended.noticeCancelled (h : s.Tended) : s.noticeCancelled.Tended := by
  refine h.of_phases h.orderly.noticeCancelled ?_ ?_
  · intro g graph diagram hg
    rw [noticeCancelled_phase?] at hg
    obtain ⟨p, hp, hfinish⟩ := Option.map_eq_some_iff.mp hg
    rw [hp]
    cases p <;> simp_all [Phase.finish]
  · rintro g ⟨graph, diagram, hg⟩
    exact ⟨graph, diagram, by rw [noticeCancelled_phase?, hg]; rfl⟩

/-- When cancelled requests have ended none is left that is to end. -/
theorem isAwake_noticeCancelled (s : Session) : s.noticeCancelled.IsAwake := by
  intro g hg
  rw [noticeCancelled_phase?] at hg
  obtain ⟨p, -, hfinish⟩ := Option.map_eq_some_iff.mp hg
  cases p <;> simp_all [Phase.finish]

/-- Only requests count. -/
theorem Tended.of_requests_eq (h : s.Tended) (hgen : s'.generation = s.generation)
    (hreq : s'.requests = s.requests) : s'.Tended := by
  refine h.of_phases (h.orderly.of_requests_eq hgen hreq) ?_ ?_
  · exact fun g graph diagram hg => phase?_of_requests_eq hreq g ▸ hg
  · rintro g ⟨graph, diagram, hg⟩
    exact ⟨graph, diagram, (phase?_of_requests_eq hreq g).trans hg⟩

/-- The moment after some work on the session. -/
def Moment.did (m : Moment) (work : Work Session) : Moment :=
  let result := (work.run m.grammars).value
  ⟨result.1, result.2⟩

end Session

open Session

namespace TimedSession

variable (env : Surroundings) {m : Moment}

/-! ### What is waited for -/

/-- The next request to be due, with one more request. -/
theorem next?_snoc (requests : List Request) (r : Request) : next? (requests ++ [r]) =
    match dueOf? r, (next? requests).bind dueOf? with
    | none, _ => next? requests
    | some _, none => some r
    | some a, some b => if a < b then some r else next? requests := by
  rw [next?, List.foldl_append]
  rfl

/-- The request whose wait is over first is one that waits; there is none if none waits. -/
theorem next?_cases (requests : List Request) :
    (next? requests = none ∧ ∀ r ∈ requests, dueOf? r = none) ∨
      ∃ r ∈ requests, next? requests = some r ∧ (dueOf? r).isSome = true := by
  induction requests using List.reverseRecOn with
  | nil => exact Or.inl ⟨rfl, by simp⟩
  | append_singleton requests r ih =>
      have hlast : r ∈ requests ++ [r] := by simp
      rw [next?_snoc]
      rcases ih with ⟨hnone, hall⟩ | ⟨first, hmem, hfirst, hdue⟩
      · rw [hnone]
        cases hr : dueOf? r with
        | none =>
            refine Or.inl ⟨rfl, fun q hq => ?_⟩
            rcases List.mem_append.mp hq with hq | hq
            · exact hall q hq
            · exact List.mem_singleton.mp hq ▸ hr
        | some a => exact Or.inr ⟨r, hlast, rfl, by simp [hr]⟩
      · obtain ⟨b, hb⟩ := Option.isSome_iff_exists.mp hdue
        have hmem' : first ∈ requests ++ [r] := List.mem_append_left [r] hmem
        rw [hfirst, Option.bind_some, hb]
        cases hr : dueOf? r with
        | none => exact Or.inr ⟨first, hmem', rfl, hdue⟩
        | some a =>
            dsimp only
            split_ifs
            · exact Or.inr ⟨r, hlast, rfl, by simp [hr]⟩
            · exact Or.inr ⟨first, hmem', rfl, hdue⟩

/-! ### Runs in time -/

/-- Requests are served by events. -/
theorem exists_serve (now : Nat) (generations : List Nat) (m : Moment) :
    ∃ events : List Event, (∀ e ∈ events, ∃ g due, e = .served g due) ∧
      (∀ g ∈ generations, ∃ due, .served g due ∈ events) ∧
      m.did (serve env now generations m.session) = m.after env.tools events := by
  induction generations generalizing m with
  | nil => exact ⟨[], by simp, by simp, rfl⟩
  | cons g generations ih =>
      let e : Event := .served g (now + (env.call m.session.calls).delay)
      obtain ⟨events, hserved, hall, heq⟩ := ih (m.next env.tools e)
      refine ⟨e :: events, ?_, ?_, ?_⟩
      · rintro e' (_ | ⟨_, he'⟩)
        · exact ⟨g, _, rfl⟩
        · exact hserved e' he'
      · rintro g' (_ | ⟨_, hg'⟩)
        · exact ⟨_, List.mem_cons_self⟩
        · obtain ⟨due, hmem⟩ := hall g' hg'
          exact ⟨due, List.mem_cons_of_mem _ hmem⟩
      · exact heq

/-- The event that a request waits for happens, and then requests are served. -/
theorem exists_happen (h : m.session.Orderly) {r : Request} (hr : r ∈ m.session.requests)
    (hdue : (dueOf? r).isSome = true) :
    ∃ e : Event, e.request? = some r.generation ∧ e.Fits m.session ∧ (∀ g due, e ≠ .served g due) ∧
      let m' := m.next env.tools e
      m.did (happen env m.session r) =
        m'.did (serve env r.due (m'.session.requests.map (·.generation)) m'.session) := by
  have hphase : m.session.phase? r.generation = some r.phase :=
    phase?_of_request? (h.request?_of_mem hr)
  obtain ⟨g, code, phase, due⟩ := r
  cases phase with
  | waiting => exact ⟨.debounced g, rfl, hphase, nofun, rfl⟩
  | rendering graph diagram =>
      exact ⟨.rendered g (env.call (m.session.calls - 1)).result, rfl, ⟨graph, diagram, hphase⟩,
        nofun, rfl⟩
  | cancelling | queued _ _ | done _ => exact absurd hdue Bool.noConfusion

/-- What a request waited for brings the session nearer to its end, and leaves it tended. -/
theorem happen_tends (h : m.session.Orderly) (hawake : m.session.IsAwake) {r : Request}
    (hr : r ∈ m.session.requests) (hdue : (dueOf? r).isSome = true) :
    let m' := m.did (happen env m.session r)
    (∃ events : List Event, (∀ e ∈ events, ∀ code due, e ≠ .edited code due) ∧
      m' = m.after env.tools events) ∧
    m'.session.Tended ∧ m'.session.IsAwake ∧ m'.session.steps < m.session.steps := by
  obtain ⟨e, he, hfits, hnotServed, hhappen⟩ := exists_happen env h hr hdue
  have h' : (m.next env.tools e).session.Orderly := h.turn env.tools (turn_next env.tools m e)
  obtain ⟨events, hserved, hall, hserve⟩ := exists_serve env r.due
    ((m.next env.tools e).session.requests.map (·.generation)) (m.next env.tools e)
  have hattended : ∀ g, (m.next env.tools e).session.Attended g ∨ ∃ due, .served g due ∈ events := by
    intro g
    by_cases hg : g ∈ (m.next env.tools e).session.requests.map (·.generation)
    · exact Or.inr (hall g hg)
    · refine Or.inl fun graph diagram hqueued => absurd ?_ hg
      have hmem := h'.le_of_phase? hqueued
      rw [h'.generations, List.mem_range'_1]
      omega
  obtain ⟨htended, hawake', hsteps⟩ :=
    tended_after_served env.tools h' (hawake.next he) hserved hattended
  intro m'
  have hm' : m' = m.after env.tools (e :: events) := hhappen.trans hserve
  rw [hm']
  refine ⟨⟨e :: events, ?_, rfl⟩, htended, hawake',
    Nat.lt_of_le_of_lt hsteps (steps_lt_of_fits h he hfits hnotServed)⟩
  rintro e' (_ | ⟨_, he'⟩) code due heq
  · exact absurd he (by simp [heq, Event.request?])
  · obtain ⟨g, due', heq'⟩ := hserved e' he'
    exact absurd (heq.symm.trans heq') Event.noConfusion

/-- The moment of a session in time, with the grammars that are loaded. -/
def moment (result : TimedSession × Grammars) : Moment := ⟨result.1.session, result.2⟩

/-- The moment `m'` comes after `m` by events other than edits, and is tended. -/
structure Passes (m m' : Moment) : Prop where
  exists_events : ∃ events : List Event, (∀ e ∈ events, ∀ code due, e ≠ .edited code due) ∧
    m' = m.after env.tools events
  tended : m'.session.Tended
  awake : m'.session.IsAwake

variable {env}

/-- No time passes. -/
theorem Passes.refl (h : m.session.Tended) (hawake : m.session.IsAwake) : Passes env m m :=
  ⟨⟨[], by simp, rfl⟩, h, hawake⟩

/-- Time passes, and then it passes on. -/
theorem Passes.trans {m' m'' : Moment} (h : Passes env m m') (h' : Passes env m' m'') :
    Passes env m m'' := by
  obtain ⟨past, hpast, rfl⟩ := h.exists_events
  obtain ⟨future, hfuture, rfl⟩ := h'.exists_events
  refine ⟨⟨past ++ future, fun e he => ?_, (Moment.after_append env.tools m past future).symm⟩,
    h'.tended, h'.awake⟩
  exact (List.mem_append.mp he).elim (hpast e) (hfuture e)

variable (env)

/-- What is waited for happens by events, and all of it with enough fuel. -/
theorem passes_runUntil (limit : Option Nat) (fuel : Nat) (t : TimedSession) (loaded : Grammars)
    (h : t.session.Tended) (hawake : t.session.IsAwake) :
    let result := ((runUntil env limit fuel t).run loaded).value
    Passes env ⟨t.session, loaded⟩ (moment result) ∧
      (limit = none → t.session.steps ≤ fuel →
        ∀ r ∈ result.1.session.requests, dueOf? r = none) := by
  induction fuel generalizing t loaded with
  | zero =>
      refine ⟨Passes.refl h hawake, fun _ hsteps r hr => ?_⟩
      have hzero : r.phase.steps = 0 :=
        List.sum_eq_zero_iff.mp (Nat.le_zero.mp hsteps) _ (List.mem_map_of_mem hr)
      obtain ⟨g, code, phase, due⟩ := r
      cases phase with
      | waiting | rendering _ _ | queued _ _ => exact absurd hzero (by simp [Phase.steps])
      | cancelling | done _ => rfl
  | succ fuel ih =>
      rcases next?_cases t.session.requests with ⟨hnone, hall⟩ | ⟨r, hr, hfirst, hdue⟩
      · have hrun : runUntil env limit (fuel + 1) t = pure t := by simp only [runUntil, hnone]
        rw [hrun]
        exact ⟨Passes.refl h hawake, fun _ _ => hall⟩
      by_cases hlimit : (limit.any fun l => l < r.due) = true
      · have hrun : runUntil env limit (fuel + 1) t = pure t := by
          simp only [runUntil, hfirst, hlimit, if_true]
        rw [hrun]
        exact ⟨Passes.refl h hawake, fun hnone => absurd hlimit (by simp [hnone])⟩
      · have hrun : runUntil env limit (fuel + 1) t =
            (happen env t.session r >>= fun s => runUntil env limit fuel ⟨s, max t.now r.due⟩) := by
          simp only [runUntil, hfirst, hlimit]
          rfl
        obtain ⟨hevents, htended, hawake', hsteps⟩ :=
          happen_tends env (m := ⟨t.session, loaded⟩) h.orderly hawake hr hdue
        obtain ⟨hpasses, hends⟩ := ih ⟨_, max t.now r.due⟩ _ htended hawake'
        rw [hrun]
        refine ⟨Passes.trans ⟨hevents, htended, hawake'⟩ hpasses, fun hnone hfuel => ?_⟩
        exact hends hnone (Nat.le_of_lt_succ (Nat.lt_of_lt_of_le hsteps hfuel))

/-! ### Sessions that are used -/

/-- What is done to a session in time. -/
inductive Use where
  | edit (code : Option String)
  | wait (time : Nat)
  | waitUntilIdle
  | setLanguage (language : Option String)
  | showStep (steps : List Step) (index : Int)

/-- The text of an edit. -/
def Use.code? : Use → Option (Option String)
  | .edit code => some code
  | .wait _ | .waitUntilIdle | .setLanguage _ | .showStep _ _ => none

/-- Uses a session in time. -/
def use (t : TimedSession) : Use → Work TimedSession
  | .edit code => return t.update env code
  | .wait time => t.advance env time
  | .waitUntilIdle => t.waitIdle env
  | .setLanguage language => return { t with session := t.session.setLanguage language }
  | .showStep steps index => return { t with session := (t.session.showStep steps index).2 }

/-- Uses a session in time again and again. -/
def useAll (t : TimedSession) (uses : List Use) : Work TimedSession := uses.foldlM (use env) t

/-- Enough events for all requests. -/
theorem steps_le_eventBound (s : Session) : s.steps ≤ eventBound s := by
  have hbound : ∀ n ∈ s.requests.map fun r => r.phase.steps, n ≤ 2 := by
    intro n hn
    obtain ⟨r, -, rfl⟩ := List.mem_map.mp hn
    cases r.phase <;> simp [Phase.steps]
  simpa [steps, eventBound, Nat.mul_comm] using List.sum_le_card_nsmul _ 2 hbound

/-- Where nothing waits any more every request has ended. -/
theorem isDone_of_idle {s : Session} (h : s.Tended) (hawake : s.IsAwake)
    (hidle : ∀ r ∈ s.requests, dueOf? r = none) : ∀ r ∈ s.requests, r.phase.isDone = true := by
  intro r hr
  have hphase := phase?_of_request? (h.orderly.request?_of_mem hr)
  have hdue := hidle r hr
  obtain ⟨g, code, phase, due⟩ := r
  cases phase with
  | done _ => rfl
  | cancelling => exact absurd hphase (hawake g)
  | waiting | rendering _ _ => exact absurd hdue (by simp [dueOf?])
  | queued graph diagram =>
      -- another request would be being rendered, and that is waited for
      obtain ⟨j, graph', diagram', hj⟩ :=
        h.orderly.exists_renders (h.attended g graph diagram hphase)
      obtain ⟨r', hr', hrendering⟩ := Option.map_eq_some_iff.mp hj
      have hdue' := hidle r' (List.mem_of_find?_eq_some hr')
      rw [dueOf?, hrendering] at hdue'
      exact absurd hdue' (by simp)

/-- Cancelled requests end first, and then time passes. -/
theorem passes_noticed (limit : Option Nat) (t : TimedSession) (loaded : Grammars)
    (h : t.session.Tended) :
    let s := t.session.noticeCancelled
    let result := ((runUntil env limit (eventBound s) ⟨s, t.now⟩).run loaded).value
    Passes env ⟨t.session, loaded⟩ (moment result) ∧
      (limit = none → ∀ r ∈ result.1.session.requests, r.phase.isDone = true) := by
  intro s result
  have hnoticed : Passes env ⟨t.session, loaded⟩ ⟨s, loaded⟩ :=
    ⟨⟨[.cancelledEnded], by simp, rfl⟩, h.noticeCancelled, isAwake_noticeCancelled _⟩
  obtain ⟨hpasses, hidle⟩ :=
    passes_runUntil env limit (eventBound s) ⟨s, t.now⟩ loaded hnoticed.tended hnoticed.awake
  exact ⟨hnoticed.trans hpasses, fun hlimit =>
    isDone_of_idle hpasses.tended hpasses.awake (hidle hlimit (steps_le_eventBound s))⟩

/-- Events other than edits leave the text of the last edit. -/
theorem latestCode?_append (past : List Event) {events : List Event}
    (hevents : ∀ e ∈ events, ∀ code due, e ≠ .edited code due) :
    latestCode? (past ++ events) = latestCode? past := by
  induction events using List.reverseRecOn with
  | nil => rw [List.append_nil]
  | append_singleton events e ih =>
      rw [← List.append_assoc, latestCode?_snoc _ (hevents e (by simp)),
        ih fun e' he' => hevents e' (List.mem_append_left [e] he')]

/-- Whatever is done to a session in time happens by events, and leaves it tended. -/
theorem events_use (u : Use) (t : TimedSession) (loaded : Grammars) (h : t.session.Tended) :
    let result := ((use env t u).run loaded).value
    result.1.session.Tended ∧ ∃ events,
      moment result = (⟨t.session, loaded⟩ : Moment).after env.tools events ∧
        ∀ past, latestCode? (past ++ events) = u.code?.or (latestCode? past) := by
  have hpasses : ∀ {m' : Moment}, Passes env ⟨t.session, loaded⟩ m' → m'.session.Tended ∧
      ∃ events, m' = (⟨t.session, loaded⟩ : Moment).after env.tools events ∧
        ∀ past, latestCode? (past ++ events) = latestCode? past := fun hpasses => by
    obtain ⟨events, hevents, heq⟩ := hpasses.exists_events
    exact ⟨hpasses.tended, events, heq, fun past => latestCode?_append past hevents⟩
  cases u with
  | edit code =>
      exact ⟨h.update code _, [.edited code (t.now + env.debounce)], rfl, fun past =>
        latestCode?_snoc_edited past code _⟩
  | wait time => exact hpasses (passes_noticed env (some (t.now + time)) t loaded h).1
  | waitUntilIdle => exact hpasses (passes_noticed env none t loaded h).1
  | setLanguage language =>
      exact ⟨h.of_requests_eq rfl rfl, [.languageSet language], rfl, fun past =>
        latestCode?_append past (by simp)⟩
  | showStep steps index =>
      obtain ⟨highlighter, hshown⟩ := showStep_eq t.session steps index
      have hgen : (t.session.showStep steps index).2.generation = t.session.generation := by
        rw [hshown]
      have hreq : (t.session.showStep steps index).2.requests = t.session.requests := by rw [hshown]
      exact ⟨h.of_requests_eq hgen hreq, [.stepShown steps index], rfl, fun past =>
        latestCode?_append past (by simp)⟩

/-- A session in time runs: whatever is done to it, it comes to where a run leads. -/
theorem runs_useAll (uses : List Use) (t : TimedSession) (loaded : Grammars)
    (h : t.session.Tended) :
    let result := ((useAll env t uses).run loaded).value
    result.1.session.Tended ∧ ∃ events,
      moment result = (⟨t.session, loaded⟩ : Moment).after env.tools events ∧
        ∀ past, latestCode? (past ++ events) =
          (uses.filterMap Use.code?).getLast?.or (latestCode? past) := by
  induction uses generalizing t loaded with
  | nil => exact ⟨h, [], rfl, fun past => by simp⟩
  | cons u uses ih =>
      obtain ⟨htended, first, hfirst, hcode⟩ := events_use env u t loaded h
      obtain ⟨htended', events, hevents, hcodes⟩ := ih _ _ htended
      refine ⟨htended', first ++ events, ?_, fun past => ?_⟩
      · rw [Moment.after_append, ← hfirst]
        exact hevents
      · rw [← List.append_assoc, hcodes, hcode, ← Option.or_assoc]
        congr 1
        cases hu : u.code? with
        | none => rw [List.filterMap_cons_none hu, Option.or_none]
        | some code =>
            rw [List.filterMap_cons_some hu, List.getLast?_cons]
            cases (uses.filterMap Use.code?).getLast? <;> rfl

/-- When a session in time has waited until it is idle, all its requests have ended, and the run that
led there has the last edit that was made. -/
theorem ended_waitUntilIdle (language : Option String) (highlighter : Option Highlighter)
    (grammars : Grammars) (uses : List Use) :
    let start : TimedSession := { session := { language := language, highlighter := highlighter } }
    let result := ((useAll env start (uses ++ [.waitUntilIdle])).run grammars).value
    (∀ r ∈ result.1.session.requests, r.phase.isDone = true) ∧ ∃ events,
      moment result = (Moment.opened language highlighter grammars).after env.tools events ∧
        latestCode? events = (uses.filterMap Use.code?).getLast? := by
  intro start result
  have hstart : start.session.Tended :=
    ⟨orderly_opened language highlighter grammars, fun g _ _ hg => absurd hg nofun⟩
  obtain ⟨-, events, hevents, hcode⟩ := runs_useAll env (uses ++ [.waitUntilIdle]) start grammars hstart
  refine ⟨?_, events, hevents, ?_⟩
  · let used := ((useAll env start uses).run grammars).value
    have hresult : result = ((used.1.waitIdle env).run used.2).value := by
      rw [show result = ((useAll env start (uses ++ [.waitUntilIdle])).run grammars).value from rfl,
        useAll, List.foldlM_append]
      rfl
    have htended : used.1.session.Tended := (runs_useAll env uses start grammars hstart).1
    rw [hresult]
    exact (passes_noticed env none used.1 used.2 htended).2 rfl
  · have hlatest := hcode []
    rw [List.nil_append, List.filterMap_append] at hlatest
    simpa [Use.code?, latestCode?] using hlatest

end TimedSession

end Flowchart
