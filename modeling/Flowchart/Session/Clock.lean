import Flowchart.Session

/-!
# Sessions in time

A session together with a clock and a renderer that takes time. Time only moves while it is waited
for; the events that fall due are taken in order of time, and work takes none. The renderer serves
queued requests in the order of their generations.
-/

namespace Flowchart

/-- What the renderer does when it is called: how long it takes, and what comes of it. -/
structure RenderCall where
  delay : Nat
  result : Rendered

/-- A session in time. -/
structure TimedSession where
  session : Session
  now : Nat := 0

/-- What a session in time works with: its tools, the wait for further edits, and what each call of
the renderer does, counted from zero. -/
structure Surroundings where
  tools : Tools
  debounce : Nat
  call : Nat → RenderCall

namespace TimedSession

variable (env : Surroundings)

/-- When the present wait of a request is over, if it waits for time to pass. -/
def dueOf? (r : Request) : Option Nat :=
  match r.phase with
  | .waiting | .rendering _ _ => some r.due
  | _ => none

/-- The request whose wait is over first. -/
def next? (requests : List Request) : Option Request :=
  requests.foldl (fun best r =>
    match dueOf? r, best.bind dueOf? with
    | none, _ => best
    | some _, none => some r
    | some a, some b => if a < b then some r else best) none

/-- Serves the requests of some generations as far as the renderer is free. -/
def serve (now : Nat) : (generations : List Nat) → Session → Work Session
  | [], s => return s
  | g :: gs, s => do
    let s ← s.served env.tools g (now + (env.call s.calls).delay)
    serve now gs s

/-- Lets the event happen that a request waited for. -/
def happen (s : Session) (r : Request) : Work Session := do
  let s ← match r.phase with
    | .waiting => s.debounced env.tools r.generation
    | .rendering _ _ => s.rendered env.tools r.generation (env.call (s.calls - 1)).result
    | _ => pure s
  serve env r.due (s.requests.map (·.generation)) s

/-- Lets the events up to `limit` happen, or all if there is none; at most `fuel` of them. -/
def runUntil (limit : Option Nat) : (fuel : Nat) → TimedSession → Work TimedSession
  | 0, t => return t
  | fuel + 1, t =>
    match next? t.session.requests with
    | none => return t
    | some r =>
      if limit.any (· < r.due) then return t
      else do
        let s ← happen env t.session r
        runUntil limit fuel ⟨s, max t.now r.due⟩

/-- Every request waits at most twice. -/
def eventBound (s : Session) : Nat := 2 * s.requests.length

/-- An edit arrives. -/
def update (t : TimedSession) (code : Option String) : TimedSession :=
  { t with session := t.session.update code (t.now + env.debounce) }

/-- Time passes. -/
def advance (t : TimedSession) (time : Nat) : Work TimedSession := do
  let limit := t.now + time
  let s := t.session.noticeCancelled
  let t ← runUntil env (some limit) (eventBound s) ⟨s, t.now⟩
  return { t with now := limit }

/-- Time passes until nothing waits any more. -/
def waitIdle (t : TimedSession) : Work TimedSession :=
  let s := t.session.noticeCancelled
  runUntil env none (eventBound s) ⟨s, t.now⟩

end TimedSession

end Flowchart
