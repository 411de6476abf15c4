import Flowchart.Proofs.Session.Run
import Mathlib.Data.List.Induction

/-!
# What a session writes, and when

A request that ends with a diagram is *committed*: graph, diagram and drawing of the session are
replaced together. `commits` is the ledger of a run, with an entry for every commit.

`Follows` says how a request moves on from phase to phase, `Turn.follows` that it never moves
otherwise; so a request that is being rendered is not cancelled any more. `renders_in_turn` collects
what the order of requests means for the renderer and for what is shown, whatever the schedule.

## The ledger

What a session shows is replaced only when a request is committed, and what is known about that is read
off three things: the phase that the request is in, the event that brings the commit, and the picture
before it. `Writes` says case by case what an event writes, and it is the only place where the picture
is compared. The ledger is then a list that grows at its end, and each entry in it is newer than the one
before, since the requests are in order.

## Main results

* `Turn.follows`: a request moves on from phase to phase, and never otherwise.
* `Turn.writes`, `ledger_after`: what an event enters into the ledger, and what stands there.
* `renders_in_turn`: what the order of requests means for the renderer and for what is shown.
-/

namespace Flowchart

/-- Whether a request has ended with its diagram. -/
def Phase.isCommitted : Phase → Bool
  | .done (.diagram _) => true
  | _ => false

/-- How a request moves on. -/
inductive Phase.Follows : Phase → Phase → Prop
  | refl (p : Phase) : Follows p p
  | cancelled : Follows .waiting .cancelling
  | ended : Follows .cancelling (.done .cancelled)
  | compiled (graph : Graph) (diagram : String) : Follows .waiting (.queued graph diagram)
  | started (graph : Graph) (diagram : String) :
      Follows (.queued graph diagram) (.rendering graph diagram)
  | taken (graph : Graph) (diagram : String) :
      Follows (.queued graph diagram) (.done (.diagram diagram))
  | drawn (graph : Graph) (diagram : String) :
      Follows (.rendering graph diagram) (.done (.diagram diagram))
  | dropped {p : Phase} (h : p.isLive = true) : Follows p (.done .nothing)

namespace Session

/-! ### How requests move on -/

/-- A request moves on when it is cancelled, or stays. -/
theorem follows_cancel (p : Phase) : p.Follows p.cancel := by
  cases p with
  | waiting => exact .cancelled
  | cancelling | queued graph diagram | rendering graph diagram | done outcome => exact .refl _

/-- A request moves on when cancelled ones end, or stays. -/
theorem follows_finish (p : Phase) : p.Follows p.finish := by
  cases p with
  | cancelling => exact .ended
  | waiting | queued graph diagram | rendering graph diagram | done outcome => exact .refl _

/-- The request that moves follows, and the others stay where they are. -/
theorem Moved.follows {s s' : Session} {g j : Nat} {p q r : Phase} (hm : Moved s s' g q)
    (hg : s.phase? g = some r) (hrq : r.Follows q) (hj : s.phase? j = some p) :
    ∃ p', s'.phase? j = some p' ∧ p.Follows p' := by
  by_cases heq : j = g
  · subst heq
    obtain rfl : r = p := Option.some.inj (hg.symm.trans hj)
    exact ⟨q, hm.phase_self, hrq⟩
  · exact ⟨p, (hm.phase_other j heq).trans hj, .refl p⟩

/-- Requests never go away, and move on as they may. -/
theorem Turn.follows {tools : Tools} {m : Moment} {e : Event} {s' : Session}
    (ht : Turn tools m e s') (h : m.session.Orderly) {g : Nat} {p : Phase}
    (hg : m.session.phase? g = some p) : ∃ p', s'.phase? g = some p' ∧ p.Follows p' := by
  cases ht with
  | edited code due =>
      have hne : g ≠ m.session.generation + 1 := by
        have := h.le_of_phase? hg
        omega
      exact ⟨p.cancel, by rw [h.update_phase?, if_neg hne, hg, Option.map_some], follows_cancel p⟩
  | ended => exact ⟨p.finish, by rw [noticeCancelled_phase?, hg, Option.map_some], follows_finish p⟩
  | idle _ hreq _ _ => exact ⟨p, (phase?_of_requests_eq hreq g).trans hg, .refl p⟩
  | outdated _ hphase hlive _ hmoved _ _ => exact hmoved.follows hphase (.dropped hlive) hg
  | compiled hreq hwaiting _ hmoved _ =>
      exact hmoved.follows ((phase?_of_request? hreq).trans (congrArg some hwaiting))
        (.compiled _ _) hg
  | started _ hqueued _ _ hmoved _ _ _ => exact hmoved.follows hqueued (.started _ _) hg
  | taken _ hqueued _ _ hmoved _ _ _ => exact hmoved.follows hqueued (.taken _ _) hg
  | drawn hrendering hmoved _ _ _ => exact hmoved.follows hrendering (.drawn _ _) hg
  | failed _ _ hrendering hmoved _ _ _ => exact hmoved.follows hrendering (.dropped rfl) hg

section Runs

variable (tools : Tools) {m : Moment}

/-- A property of phases that lasts as a request moves on lasts over a run. -/
theorem lasts_after {P : Phase → Prop} (hP : ∀ p p', P p → p.Follows p' → P p')
    (h : m.session.Orderly) {g : Nat} (hg : ∃ p, m.session.phase? g = some p ∧ P p)
    (events : List Event) : ∃ p, (m.after tools events).session.phase? g = some p ∧ P p := by
  refine (Moment.after_induction (P := fun m => m.session.Orderly ∧
    ∃ p, m.session.phase? g = some p ∧ P p) tools ⟨h, hg⟩ ?_ events).2
  rintro m e ⟨h, p, hp, hPp⟩
  have ht := turn_next tools m e
  obtain ⟨p', hp', hfollows⟩ := ht.follows h hp
  exact ⟨h.turn tools ht, p', hp', hP p p' hPp hfollows⟩

/-- A request that is being rendered will be rendered, or has ended, but not because it was
cancelled. -/
theorem renders_after (h : m.session.Orderly) {g : Nat} (hg : m.session.Renders g)
    (events : List Event) :
    (m.after tools events).session.Renders g ∨
      ∃ o, (m.after tools events).session.phase? g = some (.done o) ∧ o ≠ .cancelled := by
  obtain ⟨graph, diagram, hphase⟩ := hg
  obtain ⟨p, hp, hlast⟩ := lasts_after tools
    (P := fun p => p.isRendering = true ∨ ∃ o, p = .done o ∧ o ≠ .cancelled)
    (fun p p' hp hfollows => by
      cases hfollows with
      | refl => exact hp
      | drawn _ diagram => exact Or.inr ⟨.diagram diagram, rfl, Outcome.noConfusion⟩
      | dropped _ => exact Or.inr ⟨.nothing, rfl, Outcome.noConfusion⟩
      | cancelled | ended | compiled | started | taken =>
          simp [Phase.isRendering] at hp)
    h ⟨_, hphase, Or.inl rfl⟩ events
  rcases hlast with hrendering | ⟨o, rfl, ho⟩
  · cases p with
    | rendering graph diagram => exact Or.inl ⟨graph, diagram, hp⟩
    | waiting | cancelling | queued _ _ | done _ => exact absurd hrendering Bool.noConfusion
  · exact Or.inr ⟨o, hp, ho⟩

end Runs

/-! ### The ledger of commits -/

/-- A commit: the request that was committed, and what the session shows from then on. -/
structure Commit where
  generation : Nat
  picture : Picture

/-- Whether the request of a generation is committed. -/
def committed (s : Session) (g : Nat) : Bool := (s.phase? g).any Phase.isCommitted

/-- A request is committed if it ended with a diagram. -/
theorem committed_iff {s : Session} {g : Nat} :
    s.committed g = true ↔ ∃ diagram, s.phase? g = some (.done (.diagram diagram)) := by
  rw [committed]
  constructor
  · intro h
    match hp : s.phase? g, h with
    | some (.done (.diagram diagram)), _ => exact ⟨diagram, rfl⟩
  · rintro ⟨diagram, hp⟩
    rw [hp]
    rfl

/-- The requests that are committed in `s'` and were not in `s`. -/
def newlyCommitted (s s' : Session) : List Nat :=
  (List.range' 1 s'.generation).filter fun g => s'.committed g && !s.committed g

/-- The commits of a run, in order. -/
def commits (tools : Tools) : Moment → List Event → List Commit
  | _, [] => []
  | m, e :: events =>
    let m' := m.next tools e
    (newlyCommitted m.session m'.session).map (⟨·, m'.session.picture⟩) ++ commits tools m' events

/-- The ledger of a run in two parts. -/
theorem commits_append (tools : Tools) (m : Moment) (past future : List Event) :
    commits tools m (past ++ future) =
      commits tools m past ++ commits tools (m.after tools past) future := by
  induction past generalizing m with
  | nil => rfl
  | cons e past ih =>
      rw [List.cons_append, commits, ih, commits, List.append_assoc]
      rfl

/-- The ledger of a run with one more event. -/
theorem commits_snoc (tools : Tools) (m : Moment) (past : List Event) (e : Event) :
    let m₁ := m.after tools past
    let m₂ := m₁.next tools e
    commits tools m (past ++ [e]) = commits tools m past ++
      (newlyCommitted m₁.session m₂.session).map (⟨·, m₂.session.picture⟩) := by
  intro m₁ m₂
  rw [commits_append, commits, commits, List.append_nil]

section Ledger

variable {s s' : Session} {g : Nat}

/-- Where no request is committed that was not before, nothing is entered. -/
theorem newlyCommitted_eq_nil (h : ∀ g, s'.committed g = true → s.committed g = true) :
    newlyCommitted s s' = [] := by
  rw [newlyCommitted, List.filter_eq_nil_iff]
  intro g _ hg
  rw [Bool.and_eq_true, Bool.not_eq_true'] at hg
  exact absurd (h g hg.1) (by simp [hg.2])

/-- Where a request moves to the end and was not there, it is entered alone. -/
theorem newlyCommitted_of_moved (h : s.Orderly) {p : Phase} {diagram : String}
    (hphase : s.phase? g = some p) (hlive : p.isLive = true)
    (hm : Moved s s' g (.done (.diagram diagram))) : newlyCommitted s s' = [g] := by
  have hpred : (fun j => s'.committed j && !s.committed j) = fun j => j == g := by
    funext j
    by_cases hj : j = g
    · subst hj
      have hold : s.committed j = false := by
        rw [committed, hphase]
        cases p <;> simp_all [Phase.isLive, Phase.isCommitted]
      have hnew : s'.committed j = true := by rw [committed, hm.phase_self]; rfl
      rw [hold, hnew, beq_self_eq_true]
      rfl
    · rw [committed, hm.phase_other j hj, ← committed, beq_false_of_ne hj, Bool.and_not_self]
  have hmem : g ∈ List.range' 1 s'.generation := by
    have := h.le_of_phase? hphase
    rw [List.mem_range'_1, hm.generation_eq]
    omega
  rw [newlyCommitted, hpred, List.filter_beq, List.count_eq_one_of_mem List.nodup_range' hmem]
  rfl

/-- Requests that move elsewhere are not entered. -/
theorem newlyCommitted_eq_nil_of_moved {p : Phase} (hp : p.isCommitted = false)
    (hm : Moved s s' g p) : newlyCommitted s s' = [] := by
  refine newlyCommitted_eq_nil fun j hj => ?_
  by_cases heq : j = g
  · subst heq
    rw [committed, hm.phase_self, Option.any_some, hp] at hj
    exact absurd hj Bool.noConfusion
  · rwa [committed, hm.phase_other j heq] at hj

end Ledger

/-! ### What is written -/

/-- What an event writes: nothing, the failure of the newest request's render, or the result of the
newest request as a whole. -/
inductive Writes (s : Session) : Event → Session → Prop
  | nothing {e : Event} {s' : Session} (hnew : newlyCommitted s s' = [])
      (hpicture : s'.picture = s.picture) (herror : s'.error = s.error) : Writes s e s'
  | failure {s' : Session} (kind message : String) (hrenders : s.Renders s.generation)
      (hnew : newlyCommitted s s' = []) (hpicture : s'.picture = s.picture)
      (herror : s'.error = some failureMessage) :
      Writes s (.rendered s.generation (.failed kind message)) s'
  | unrendered {s' : Session} {graph : Graph} {diagram : String} (due : Nat)
      (hqueued : s.phase? s.generation = some (.queued graph diagram))
      (hnew : newlyCommitted s s' = [s.generation]) (hpicture : s'.picture = ⟨graph, diagram, none⟩)
      (herror : s'.error = none) : Writes s (.served s.generation due) s'
  | rendered {s' : Session} {graph : Graph} {diagram text : String}
      (hrendering : s.phase? s.generation = some (.rendering graph diagram))
      (hnew : newlyCommitted s s' = [s.generation])
      (hpicture : s'.picture = ⟨graph, diagram, some text⟩) (herror : s'.error = none) :
      Writes s (.rendered s.generation (.svg text)) s'

/-- Nothing is written otherwise. -/
theorem Turn.writes {tools : Tools} {m : Moment} {e : Event} {s' : Session}
    (ht : Turn tools m e s') (h : m.session.Orderly) : Writes m.session e s' := by
  have hnil : ∀ {f : Phase → Phase}, (∀ p, (f p).isCommitted = true → p.isCommitted = true) →
      ∀ g, ((m.session.phase? g).map f).any Phase.isCommitted = true →
        m.session.committed g = true := by
    intro f hf g hg
    rw [committed]
    cases hp : m.session.phase? g with
    | none => simp [hp] at hg
    | some p => exact hf p (by simpa [hp] using hg)
  cases ht with
  | edited code due =>
      refine .nothing (newlyCommitted_eq_nil fun g hg => ?_) rfl rfl
      rw [committed, h.update_phase?] at hg
      split_ifs at hg
      · exact absurd hg Bool.noConfusion
      · exact hnil (fun p hp => by cases p <;> exact hp) g hg
  | ended =>
      refine .nothing (newlyCommitted_eq_nil fun g hg => ?_) rfl rfl
      rw [committed, noticeCancelled_phase?] at hg
      exact hnil (fun p hp => by cases p <;> exact hp) g hg
  | idle _ hreq hstill _ =>
      refine .nothing (newlyCommitted_eq_nil fun g hg => ?_) hstill.picture_eq hstill.error_eq
      rwa [committed, phase?_of_requests_eq hreq] at hg
  | outdated _ _ _ _ hmoved hstill _ =>
      exact .nothing (newlyCommitted_eq_nil_of_moved rfl hmoved) hstill.picture_eq hstill.error_eq
  | compiled _ _ _ hmoved hstill =>
      exact .nothing (newlyCommitted_eq_nil_of_moved rfl hmoved) hstill.picture_eq hstill.error_eq
  | started _ _ _ _ hmoved hpicture herror _ =>
      exact .nothing (newlyCommitted_eq_nil_of_moved rfl hmoved) hpicture herror
  | taken due hqueued _ _ hmoved hpicture herror _ =>
      exact .unrendered due hqueued (newlyCommitted_of_moved h hqueued rfl hmoved) hpicture herror
  | drawn hrendering hmoved hpicture herror _ =>
      exact .rendered hrendering (newlyCommitted_of_moved h hrendering rfl hmoved) hpicture herror
  | failed kind message hrendering hmoved hpicture herror _ =>
      exact .failure kind message ⟨_, _, hrendering⟩ (newlyCommitted_eq_nil_of_moved rfl hmoved)
        hpicture herror

/-- A request that is not the newest writes nothing. -/
theorem Writes.of_older {s s' : Session} {e : Event} (h : Writes s e s') {j : Nat}
    (he : e.request? = some j) (hj : j ≠ s.generation) :
    s'.picture = s.picture ∧ s'.error = s.error := by
  cases h with
  | nothing _ hpicture herror => exact ⟨hpicture, herror⟩
  | failure | unrendered | rendered => exact absurd (Option.some.inj he).symm hj

/-- What is entered comes from the newest request. -/
theorem Writes.newlyCommitted_eq {s s' : Session} {e : Event} (h : Writes s e s') :
    newlyCommitted s s' = [] ∧ s'.picture = s.picture ∨ newlyCommitted s s' = [s.generation] := by
  cases h with
  | nothing hnew hpicture _ => exact Or.inl ⟨hnew, hpicture⟩
  | failure _ _ _ hnew hpicture _ => exact Or.inl ⟨hnew, hpicture⟩
  | unrendered _ _ hnew _ _ => exact Or.inr hnew
  | rendered _ hnew _ _ => exact Or.inr hnew

section Runs

variable (tools : Tools) {m : Moment}

/-- A committed request stays committed. -/
theorem committed_next (h : m.session.Orderly) (e : Event) {g : Nat}
    (hg : m.session.committed g = true) : (m.next tools e).session.committed g = true := by
  obtain ⟨diagram, hp⟩ := committed_iff.mp hg
  obtain ⟨p', hp', hfollows⟩ := (turn_next tools m e).follows h hp
  cases hfollows with
  | refl => exact committed_iff.mpr ⟨diagram, hp'⟩
  | dropped hlive => exact absurd hlive Bool.noConfusion

/-- The entries of the ledger are committed requests in the order of their generations, and what the
session shows is the last of them. -/
theorem ledger_after (h : m.session.Orderly) (hpicture : m.session.picture = {})
    (events : List Event) :
    let s := (m.after tools events).session
    (∀ c ∈ commits tools m events, s.committed c.generation = true) ∧
      (commits tools m events).Pairwise (fun a b => a.generation < b.generation) ∧
      s.picture = ((commits tools m events).getLast?.map (·.picture)).getD {} := by
  induction events using List.reverseRecOn with
  | nil => exact ⟨fun c hc => absurd hc List.not_mem_nil, List.Pairwise.nil, hpicture⟩
  | append_singleton past e ih =>
      obtain ⟨hcommitted, hordered, hlast⟩ := ih
      have horderly := orderly_after tools h past
      have hturn := turn_next tools (m.after tools past) e
      intro s
      have hs : s = ((m.after tools past).next tools e).session :=
        congrArg Moment.session (Moment.after_snoc tools m past e)
      rw [commits_snoc, ← hs]
      have hkept : ∀ c ∈ commits tools m past, s.committed c.generation = true := fun c hc => by
        rw [hs]
        exact committed_next tools horderly e (hcommitted c hc)
      rcases hs ▸ (hturn.writes horderly).newlyCommitted_eq with ⟨hnew, hsame⟩ | hnew
      · rw [hnew, List.map_nil, List.append_nil]
        exact ⟨hkept, hordered, hsame.trans hlast⟩
      · have hself : s.committed (m.after tools past).session.generation = true := by
          have hmem := List.mem_singleton_self (m.after tools past).session.generation
          rw [← hnew, newlyCommitted, List.mem_filter, Bool.and_eq_true] at hmem
          exact hmem.2.1
        have hold : (m.after tools past).session.committed
            (m.after tools past).session.generation = false := by
          have hmem := List.mem_singleton_self (m.after tools past).session.generation
          rw [← hnew, newlyCommitted, List.mem_filter, Bool.and_eq_true, Bool.not_eq_true'] at hmem
          exact hmem.2.2
        rw [hnew, List.map_singleton]
        refine ⟨?_, ?_, by rw [List.getLast?_append]; rfl⟩
        · intro c hc
          rw [List.mem_append, List.mem_singleton] at hc
          exact hc.elim (hkept c) fun heq => heq ▸ hself
        · rw [List.pairwise_append]
          refine ⟨hordered, List.pairwise_singleton _ _, fun c hc d hd => ?_⟩
          obtain rfl := List.mem_singleton.mp hd
          obtain ⟨diagram, hp⟩ := committed_iff.mp (hcommitted c hc)
          refine Nat.lt_of_le_of_ne (horderly.le_of_phase? hp).2 fun heq => ?_
          exact Bool.noConfusion ((congrArg _ heq).symm.trans (hcommitted c hc) |>.symm.trans hold)

/-- Generations never go back. -/
theorem generation_le_after (events : List Event) :
    m.session.generation ≤ (m.after tools events).session.generation := by
  refine Moment.after_induction (P := fun m' => m.session.generation ≤ m'.session.generation) tools
    (Nat.le_refl _) (fun m' e h => Nat.le_trans h ?_) events
  have ht := turn_next tools m' e
  cases ht with
  | edited code due => exact Nat.le_succ _
  | ended => exact Nat.le_refl _
  | idle hgen _ _ _ => exact Nat.le_of_eq hgen.symm
  | outdated _ _ _ _ hmoved _ _ | compiled _ _ _ hmoved _ | started _ _ _ _ hmoved _ _ _
  | taken _ _ _ _ hmoved _ _ _ | drawn _ hmoved _ _ _ | failed _ _ _ hmoved _ _ _ =>
      exact Nat.le_of_eq hmoved.generation_eq.symm

end Runs

/-! ### The renderer -/

/-- At most one request is being rendered. -/
theorem Orderly.length_rendering_le {s : Session} (h : s.Orderly) :
    (s.requests.filter (·.phase.isRendering)).length ≤ 1 := by
  have hnodup : ((s.requests.filter (·.phase.isRendering)).map (·.generation)).Nodup := by
    have hall : (s.requests.map (·.generation)).Nodup := h.generations ▸ List.nodup_range'
    exact hall.sublist (List.filter_sublist.map _)
  have hrenders : ∀ r ∈ s.requests.filter (·.phase.isRendering), s.Renders r.generation := by
    intro r hr
    obtain ⟨hmem, hrendering⟩ := List.mem_filter.mp hr
    obtain ⟨g, code, phase, due⟩ := r
    cases phase with
    | rendering graph diagram => exact ⟨graph, diagram, phase?_of_request? (h.request?_of_mem hmem)⟩
    | waiting | cancelling | queued _ _ | done _ => exact absurd hrendering Bool.noConfusion
  match hlist : s.requests.filter (·.phase.isRendering) with
  | [] | [_] => simp [hlist]
  | r :: q :: rest =>
      rw [hlist] at hnodup hrenders
      have heq := h.one_renders r.generation q.generation (hrenders r (by simp))
        (hrenders q (by simp))
      simp [heq] at hnodup

/-- A render starts for the newest request only. -/
theorem Turn.starts {tools : Tools} {m : Moment} {e : Event} {s' : Session}
    (ht : Turn tools m e s') (h : m.session.Orderly) :
    (∀ g, ¬m.session.Renders g → s'.Renders g → g = m.session.generation) ∧
      (s'.calls = m.session.calls ∨ s'.calls = m.session.calls + 1 ∧
        (∀ g, ¬m.session.Renders g) ∧ s'.Renders m.session.generation) := by
  have hmoved : ∀ {g : Nat} {p : Phase}, p.isRendering = false → Moved m.session s' g p →
      ∀ j, ¬m.session.Renders j → s'.Renders j → j = m.session.generation := by
    rintro g p hp hm j hj ⟨graph, diagram, hj'⟩
    by_cases heq : j = g
    · subst heq
      rw [hm.phase_self] at hj'
      obtain rfl := Option.some.inj hj'
      exact absurd hp Bool.noConfusion
    · exact absurd ⟨graph, diagram, hm.phase_other j heq ▸ hj'⟩ hj
  cases ht with
  | edited code due => exact ⟨fun g hg hg' => absurd (h.renders_of_update hg') hg, Or.inl rfl⟩
  | ended => exact ⟨fun g hg hg' => absurd (renders_of_noticeCancelled hg') hg, Or.inl rfl⟩
  | idle _ hreq hstill _ =>
      refine ⟨fun g hg hg' => absurd ?_ hg, Or.inl hstill.calls_eq⟩
      rwa [Renders, phase?_of_requests_eq hreq] at hg'
  | outdated _ _ _ _ hm hstill _ => exact ⟨hmoved rfl hm, Or.inl hstill.calls_eq⟩
  | compiled _ _ _ hm hstill => exact ⟨hmoved rfl hm, Or.inl hstill.calls_eq⟩
  | started _ _ hfree _ hm _ _ hcalls =>
      refine ⟨fun g hg hg' => ?_,
        Or.inr ⟨hcalls, Orderly.not_renders_of_free hfree, ⟨_, _, hm.phase_self⟩⟩⟩
      obtain ⟨graph, diagram, hg'⟩ := hg'
      by_contra hne
      exact hg ⟨graph, diagram, hm.phase_other g hne ▸ hg'⟩
  | taken _ _ _ _ hm _ _ hcalls => exact ⟨hmoved rfl hm, Or.inl hcalls⟩
  | drawn _ hm _ _ hcalls => exact ⟨hmoved rfl hm, Or.inl hcalls⟩
  | failed _ _ _ hm _ _ hcalls => exact ⟨hmoved rfl hm, Or.inl hcalls⟩

/-- How requests share the renderer and the picture, at every moment of every run and for every
event that comes next:
at most one request is being rendered;
a render starts for the newest request only, and only while there is no other;
a request whose render has started is not cancelled, whatever comes;
an event writes nothing, or the failure of the newest request, or its result as a whole;
what is committed was asked for later than everything committed before;
and from an edit on, no event of a request before it writes anything. -/
theorem renders_in_turn (tools : Tools) (language : Option String)
    (highlighter : Option Highlighter) (grammars : Grammars) (past : List Event) (e : Event) :
    let start := Moment.opened language highlighter grammars
    let m := start.after tools past
    let s := m.session
    let s' := (m.next tools e).session
    (s.requests.filter (·.phase.isRendering)).length ≤ 1 ∧
    ((∀ g, ¬s.Renders g → s'.Renders g → g = s.generation) ∧
      (s'.calls = s.calls ∨
        s'.calls = s.calls + 1 ∧ (∀ g, ¬s.Renders g) ∧ s'.Renders s.generation)) ∧
    (∀ g, s.Renders g → ∀ future, let t := (m.after tools future).session
      t.Renders g ∨ ∃ o, t.phase? g = some (.done o) ∧ o ≠ .cancelled) ∧
    Writes s e s' ∧
    (commits tools start past).Pairwise (fun a b => a.generation < b.generation) ∧
    ∀ code due future e' j, e'.request? = some j → j < s.generation + 1 →
      let t := m.after tools (.edited code due :: future)
      (t.next tools e').session.picture = t.session.picture ∧
        (t.next tools e').session.error = t.session.error := by
  intro start m s s'
  have hstart := orderly_opened language highlighter grammars
  have horderly : s.Orderly := orderly_after tools hstart past
  have hturn : Turn tools m e s' := turn_next tools m e
  refine ⟨horderly.length_rendering_le, hturn.starts horderly,
    fun g hg future => renders_after tools horderly hg future, hturn.writes horderly,
    (ledger_after tools hstart rfl past).2.1, ?_⟩
  intro code due future e' j he' hj t
  have ht : t.session.Orderly := orderly_after tools horderly _
  refine ((turn_next tools t e').writes ht).of_older he' (Nat.ne_of_lt (Nat.lt_of_lt_of_le hj ?_))
  -- the edit's generation is reached at once and never left
  exact generation_le_after tools (m := m.next tools (.edited code due)) future

end Session

end Flowchart
