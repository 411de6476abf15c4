import Flowchart.Proofs.Drawing.Opening

/-!
# Statements that control does not get past

`Stmt.stops` says of a statement, by looking at its parts alone, that every path through it ends in a
terminal. A loop is left through what follows it, so it stops if that does; a guarded statement stops
if its body, with what follows it, and all of its handlers stop, whatever is done on the way out, or
if its cleanup stops.

`Stmt.noDead` says that there is no dead code: in no list of statements anything comes after one that
stops, and nothing follows a guarded body that stops.

Without dead code, drawing leaves no exit exactly after what stops (`Block.ends_eq_nil_iff`), unless
there was none before and nothing was drawn.

## Two inductions

That no exit is left after what stops needs two directions, and only one of them needs the code to be
free of dead code. A block that is entered and leaves no exit stops: its statements are entered one
after the other until the exits are gone (`Block.stops_of_ends_nil`). A block that stops leaves no exit:
for that the statement that stops has to be the last one, as anything after it would be drawn with exits
of its own (`Block.ends_nil_of_stops`).

## Main results

* `noDead_blocks`: without dead code in a statement there is none in its blocks.
* `stops_of_ends_nil`, `ends_nil_of_stops`: no exit is left exactly after what stops, for statements
  and for blocks.
* `Block.ends_eq_nil_iff`: both together.
-/

namespace Flowchart

open Builder

mutual
/-- Whether every path through the statement ends in a terminal. -/
def Stmt.stops : Stmt → Bool
  | .branch _ _ _ body orelse => stopsAll body && stopsAll orelse
  | .loop _ _ _ orelse => stopsAll orelse
  | .guarded _ _ body orelse handlers cleanup =>
    (stopsAll body || stopsAll orelse) && handlersStop handlers || cleanupStops cleanup
  | .switch _ _ _ cases => casesStop cases && defaultStops cases
  | .resource _ _ body _ => stopsAll body
  | .terminal _ _ => true
  | .block _ body => stopsAll body
  | .simple _ _ | .countedLoop _ _ _ _ _ _ | .function _ _ _ | .container _ _ _ | .skip => false

/-- Whether every path through the statements ends in a terminal. -/
def stopsAll : List Stmt → Bool
  | [] => false
  | s :: rest => s.stops || stopsAll rest

/-- Whether all handlers stop. -/
def handlersStop : List (Handler Stmt) → Bool
  | [] => true
  | ⟨_, _, body⟩ :: rest => stopsAll body && handlersStop rest

/-- Whether there is a cleanup that stops. -/
def cleanupStops : Option (Cleanup Stmt) → Bool
  | none => false
  | some ⟨_, body⟩ => stopsAll body

/-- Whether all cases stop, defaults left out. -/
def casesStop : List (Case Stmt) → Bool
  | [] => true
  | ⟨_, _, isDefault, body⟩ :: rest => (isDefault || stopsAll body) && casesStop rest

/-- Whether there is a default and the first one stops. -/
def defaultStops : List (Case Stmt) → Bool
  | [] => false
  | ⟨_, _, isDefault, body⟩ :: rest => if isDefault then stopsAll body else defaultStops rest
end

mutual
/-- Whether there is no dead code in the statement. -/
def Stmt.noDead : Stmt → Bool
  | .branch _ _ _ body orelse => noDead body && noDead orelse
  | .loop _ _ body orelse => noDead body && noDead orelse
  | .countedLoop _ _ _ _ _ body => noDead body
  | .guarded _ _ body orelse handlers cleanup =>
    noDead body && noDead orelse && (orelse.isEmpty || !stopsAll body) &&
      handlersNoDead handlers && cleanupNoDead cleanup
  | .switch _ _ _ cases => casesNoDead cases
  | .resource _ _ body _ => noDead body
  | .function _ _ body => noDead body
  | .container _ _ members => noDead members
  | .block _ body => noDead body
  | .simple _ _ | .terminal _ _ | .skip => true

/-- Whether there is no dead code in the statements: nothing comes after one that stops. -/
def noDead : List Stmt → Bool
  | [] => true
  | s :: rest => s.noDead && (rest.isEmpty || !s.stops) && noDead rest

/-- Whether there is no dead code in the handlers. -/
def handlersNoDead : List (Handler Stmt) → Bool
  | [] => true
  | ⟨_, _, body⟩ :: rest => noDead body && handlersNoDead rest

/-- Whether there is no dead code in the cleanup. -/
def cleanupNoDead : Option (Cleanup Stmt) → Bool
  | none => true
  | some ⟨_, body⟩ => noDead body

/-- Whether there is no dead code in the cases. -/
def casesNoDead : List (Case Stmt) → Bool
  | [] => true
  | ⟨_, _, _, body⟩ :: rest => noDead body && casesNoDead rest
end

/-! ### The parts of a statement -/

/-- A block of one statement stops if the statement does. -/
theorem stopsAll_singleton (s : Stmt) : stopsAll [s] = s.stops := by
  simp [stopsAll]

/-- A block of one statement has dead code if the statement has. -/
theorem noDead_singleton (s : Stmt) : noDead [s] = s.noDead := by
  simp [noDead]

/-- In a block without dead code nothing comes after a statement that stops. -/
theorem noDead_cons {s : Stmt} {rest : List Stmt} (h : noDead (s :: rest) = true) :
    s.noDead = true ∧ (rest = [] ∨ s.stops = false) ∧ noDead rest = true := by
  simpa [noDead, and_assoc] using h

mutual
/-- A branch stops if all blocks of its chain do. -/
theorem branchChain_stops (s : Stmt) (es : List Exit) (b : Builder) :
    (∀ r ∈ (branchChain s es b).blocks, stopsAll r.stmts = true) ↔ s.stops = true := by
  cases s with
  | branch line text cond body orelse =>
      have hrest := elseChain_stops orelse [Exit.no (b.freshId line)]
        (yesBlock es b (orText cond text) line body).after
      rw [branchChain, Chain.cons_blocks, List.forall_mem_cons, hrest, Stmt.stops, Bool.and_eq_true]
      rfl
  | _ => simp [branchChain, Chain.blocks, stopsAll_singleton]

/-- All blocks of an else part stop exactly if the else part does. -/
theorem elseChain_stops (stmts : List Stmt) (es : List Exit) (b : Builder) :
    (∀ r ∈ (elseChain stmts es b).blocks, stopsAll r.stmts = true) ↔ stopsAll stmts = true := by
  match stmts with
  | [] => simp [elseChain, Chain.blocks]
  | [s] => rw [elseChain, branchChain_stops, stopsAll_singleton]
  | s :: s' :: rest => simp [elseChain, Chain.blocks]
end

mutual
/-- There is no dead code in the blocks of a branch's chain. -/
theorem branchChain_noDead (s : Stmt) (es : List Exit) (b : Builder) (h : s.noDead = true) :
    ∀ r ∈ (branchChain s es b).blocks, noDead r.stmts = true := by
  cases s with
  | branch line text cond body orelse =>
      obtain ⟨hbody, horelse⟩ : noDead body = true ∧ noDead orelse = true := by
        simpa [Stmt.noDead] using h
      rw [branchChain, Chain.cons_blocks, List.forall_mem_cons]
      exact ⟨hbody, elseChain_noDead orelse _ _ horelse⟩
  | _ => simpa [branchChain, Chain.blocks, noDead_singleton] using h

/-- Without dead code in an else part there is none in its blocks. -/
theorem elseChain_noDead (stmts : List Stmt) (es : List Exit) (b : Builder)
    (h : noDead stmts = true) : ∀ r ∈ (elseChain stmts es b).blocks, noDead r.stmts = true := by
  match stmts with
  | [] => simpa [elseChain, Chain.blocks] using h
  | [s] => exact branchChain_noDead s es b (by rwa [noDead_singleton] at h)
  | s :: s' :: rest => simpa [elseChain, Chain.blocks] using h
end

/-- The default case stops if its body does. -/
theorem defaultStops_eq (cases : List (Case Stmt)) :
    defaultStops cases = stopsAll (defaultBody cases) := by
  induction cases with
  | nil => rfl
  | cons c rest ih =>
      obtain ⟨label, line, isDefault, body⟩ := c
      cases isDefault with
      | true => rfl
      | false => exact ih

/-- A switch stops if all blocks of its chain do. -/
theorem caseChain_stops (default : List Stmt) (cases : List (Case Stmt)) (es : List Exit)
    (b : Builder) : (∀ r ∈ (caseChain default cases es b).blocks, stopsAll r.stmts = true) ↔
      casesStop cases = true ∧ stopsAll default = true := by
  induction cases generalizing es b with
  | nil => simp [caseChain, Chain.blocks, casesStop]
  | cons c rest ih =>
      obtain ⟨label, line, isDefault, body⟩ := c
      cases isDefault with
      | true => simpa [caseChain, casesStop] using ih es b
      | false =>
          have hrest := ih [Exit.no (b.freshId line)] (yesBlock es b label line body).after
          rw [caseChain, if_neg (by simp), Chain.cons_blocks, List.forall_mem_cons, hrest, casesStop,
            Bool.false_or, Bool.and_eq_true, and_assoc]
          rfl

/-- Without dead code in cases there is none in the default. -/
theorem noDead_defaultBody {cases : List (Case Stmt)} (h : casesNoDead cases = true) :
    noDead (defaultBody cases) = true := by
  induction cases with
  | nil => rfl
  | cons c rest ih =>
      obtain ⟨label, line, isDefault, body⟩ := c
      obtain ⟨hbody, hrest⟩ : noDead body = true ∧ casesNoDead rest = true := by
        simpa [casesNoDead] using h
      cases isDefault with
      | true => exact hbody
      | false => exact ih hrest

/-- Without dead code in cases there is none in their blocks. -/
theorem caseChain_noDead {default : List Stmt} (hdefault : noDead default = true)
    (cases : List (Case Stmt)) (es : List Exit) (b : Builder) (h : casesNoDead cases = true) :
    ∀ r ∈ (caseChain default cases es b).blocks, noDead r.stmts = true := by
  induction cases generalizing es b with
  | nil => simpa [caseChain, Chain.blocks] using hdefault
  | cons c rest ih =>
      obtain ⟨label, line, isDefault, body⟩ := c
      obtain ⟨hbody, hrest⟩ : noDead body = true ∧ casesNoDead rest = true := by
        simpa [casesNoDead] using h
      cases isDefault with
      | true => exact ih es b hrest
      | false =>
          rw [caseChain, if_neg (by simp), Chain.cons_blocks, List.forall_mem_cons]
          exact ⟨hbody, ih _ _ hrest⟩

/-- All handlers stop exactly if their blocks do. -/
theorem handlerLinks_stops (entry : String) (handlers : List (Handler Stmt)) (b : Builder) :
    (∀ l ∈ (handlerLinks entry handlers b).1, stopsAll l.block.stmts = true) ↔
      handlersStop handlers = true := by
  induction handlers generalizing b with
  | nil => simp [handlerLinks, handlersStop]
  | cons h rest ih =>
      obtain ⟨label, line, body⟩ := h
      rw [handlerLinks, List.forall_mem_cons, ih, handlersStop, Bool.and_eq_true]

/-- Without dead code in handlers there is none in their blocks. -/
theorem handlerLinks_noDead (entry : String) (handlers : List (Handler Stmt)) (b : Builder)
    (h : handlersNoDead handlers = true) :
    ∀ l ∈ (handlerLinks entry handlers b).1, noDead l.block.stmts = true := by
  induction handlers generalizing b with
  | nil => simp [handlerLinks]
  | cons hd rest ih =>
      obtain ⟨label, line, body⟩ := hd
      obtain ⟨hbody, hrest⟩ : noDead body = true ∧ handlersNoDead rest = true := by
        simpa [handlersNoDead] using h
      rw [handlerLinks, List.forall_mem_cons]
      exact ⟨hbody, ih _ hrest⟩

/-- Without dead code among members there is none in their blocks. -/
theorem memberBlocks_noDead (members : List Stmt) (b : Builder) (h : noDead members = true) :
    ∀ r ∈ memberBlocks members b, noDead r.stmts = true := by
  induction members generalizing b with
  | nil => simp [memberBlocks]
  | cons s rest ih =>
      obtain ⟨hs, -, hrest⟩ := noDead_cons h
      rw [memberBlocks, List.forall_mem_cons]
      exact ⟨(noDead_singleton s).trans hs, ih _ hrest⟩

/-- The blocks of a chain are drawn from the answers of its decisions, unless there is none. -/
theorem Chain.Laid.exits_ne_nil {es : List Exit} {b : Builder} {c : Chain} (hc : c.Laid es b) :
    ∀ r ∈ c.blocks, r.exits ≠ [] ∨ c.links = [] ∧ r = c.last := by
  induction hc with
  | last r => exact fun r' hr' => Or.inr ⟨rfl, List.mem_singleton.mp hr'⟩
  | @cons es b text line body c hc ih =>
      intro r hr
      rw [Chain.cons_blocks, List.mem_cons] at hr
      refine Or.inl ?_
      rcases hr with rfl | hr
      · exact List.cons_ne_nil _ _
      · rcases ih r hr with hne | ⟨hlinks, rfl⟩
        · exact hne
        · rw [(hc.last_of_links hlinks).1]
          exact List.cons_ne_nil _ _

namespace Visit

/-- The statement of a chain stops if all blocks of the chain do. -/
theorem stops_chain {v : Visit} {c : Chain} (h : v.chain? = some c) :
    (∀ r ∈ c.blocks, stopsAll r.stmts = true) ↔ v.stmt.stops = true := by
  obtain ⟨s, es, b⟩ := v
  cases s with
  | branch line text cond body orelse =>
      obtain rfl := Option.some.inj h
      exact branchChain_stops _ es b
  | switch line text subject cases =>
      obtain rfl := Option.some.inj h
      rw [caseChain_stops, Stmt.stops, Bool.and_eq_true, defaultStops_eq]
  | _ => exact absurd h (by simp [chain?])

/-- There is no dead code in the blocks of a statement without dead code. -/
theorem noDead_blocks (v : Visit) (h : v.stmt.noDead = true) :
    ∀ r ∈ v.blocks, noDead r.stmts = true := by
  obtain ⟨s, es, b⟩ := v
  cases s with
  | branch => exact branchChain_noDead _ es b h
  | loop line text body orelse =>
      obtain ⟨hbody, horelse⟩ : noDead body = true ∧ noDead orelse = true := by
        simpa [Stmt.noDead] using h
      intro r hr
      rcases List.mem_pair.mp hr with rfl | rfl
      · exact hbody
      · exact horelse
  | guarded line text body orelse handlers cleanup =>
      obtain ⟨hbody, horelse, -, hhandlers, hcleanup⟩ : noDead body = true ∧ noDead orelse = true ∧
          (orelse = [] ∨ stopsAll body = false) ∧ handlersNoDead handlers = true ∧
          cleanupNoDead cleanup = true := by
        simpa [Stmt.noDead, and_assoc] using h
      intro r hr
      rcases List.mem_cons.mp hr with rfl | hr
      · exact hbody
      rcases List.mem_cons.mp hr with rfl | hr
      · exact horelse
      rcases List.mem_append.mp hr with hr | hr
      · obtain ⟨l, hl, rfl⟩ := List.mem_map.mp hr
        exact handlerLinks_noDead _ handlers _ hhandlers l hl
      · cases cleanup with
        | none => exact absurd hr (by simp [Guard.cleanup?])
        | some c =>
            obtain rfl := List.mem_singleton.mp hr
            exact hcleanup
  | switch line text subject cases =>
      exact caseChain_noDead (noDead_defaultBody h) cases es b h
  | container => exact memberBlocks_noDead _ _ h
  | countedLoop | resource | function | block =>
      intro r hr
      obtain rfl := List.mem_singleton.mp hr
      exact h
  | simple | terminal | skip => exact fun r hr => absurd hr List.not_mem_nil

/-- What follows a guarded body without dead code: nothing, if the body stops. -/
theorem noDead_guard {v : Visit} {g : Guard} (hg : v.guard? = some g) (h : v.stmt.noDead = true) :
    g.orelse.stmts = [] ∨ stopsAll g.body.stmts = false := by
  obtain ⟨s, es, b⟩ := v
  cases s with
  | guarded line text body orelse handlers cleanup =>
      obtain rfl := Option.some.inj hg
      have hdead : (orelse = [] ∨ stopsAll body = false) := by
        simp only [Stmt.noDead, Bool.and_eq_true, Bool.or_eq_true, List.isEmpty_iff,
          Bool.not_eq_true'] at h
        exact h.1.1.2
      exact hdead
  | _ => exact absurd hg (by simp [guard?])

/-- A statement with a chain has no exits if none of the chain's blocks has, and the other way
round. -/
theorem ends_chain {v : Visit} {c : Chain} (h : v.chain? = some c) :
    v.ends = [] ↔ ∀ r ∈ c.blocks, r.ends = [] := by
  obtain ⟨hclose, -⟩ := close_chain h
  have hends : c.ends = [] ↔ ∀ r ∈ c.blocks, r.ends = [] := by
    simp [Chain.ends, Chain.blocks, or_imp, forall_and]
  have hfst : v.ends = c.close.1 := congrArg Prod.fst hclose
  rw [hfst, ← hends, Chain.close]
  split_ifs with hlinks
  · rw [Chain.ends, List.isEmpty_iff.mp hlinks]
    rfl
  · by_cases hnil : c.ends = []
    · simp [hnil]
    · simp [join_of_ne_nil _ hnil, hnil]

/-- A guarded statement has no exits if its body, with what follows it, and its handlers have none,
or its cleanup has none. -/
theorem ends_guard {v : Visit} {g : Guard} (hg : v.guard? = some g) :
    v.ends = [] ↔ g.exits = [] ∨ ∃ f ∈ v.finally?, f.block.ends = [] := by
  rw [← g.joined_eq_nil_iff]
  cases hf : v.finally? with
  | none => simp [(close_guard_none hg hf).1]
  | some f =>
      rw [(close_guard_some hg hf).1]
      by_cases hnil : g.joined.1 = [] <;> simp [hnil]

/-- A guarded statement stops if its body, or what follows it, and all of its handlers stop, or its
cleanup does. -/
theorem stops_guard {v : Visit} {g : Guard} (hg : v.guard? = some g) : v.stmt.stops = true ↔
    ((stopsAll g.body.stmts = true ∨ stopsAll g.orelse.stmts = true) ∧
      ∀ l ∈ g.handlers, stopsAll l.block.stmts = true) ∨
      ∃ f ∈ v.finally?, stopsAll f.block.stmts = true := by
  obtain ⟨s, es, b⟩ := v
  cases s with
  | guarded line text body orelse handlers cleanup =>
      obtain rfl := Option.some.inj hg
      set g := guardFrom es b line text body orelse handlers with hdef
      have hhandlers : (∀ l ∈ g.handlers, stopsAll l.block.stmts = true) ↔
          handlersStop handlers = true := handlerLinks_stops _ handlers _
      have hcleanup : (∃ f ∈ (⟨.guarded line text body orelse handlers cleanup, es, b⟩ :
          Visit).finally?, stopsAll f.block.stmts = true) ↔ cleanupStops cleanup = true := by
        cases cleanup with
        | none => simp [finally?, Guard.cleanup?, cleanupStops]
        | some c => simp [finally?, Guard.cleanup?, cleanupStops, cleanupLink]
      rw [hhandlers, hcleanup, Stmt.stops, Bool.or_eq_true, Bool.and_eq_true, Bool.or_eq_true]
      rfl
  | _ => exact absurd hg (by simp [guard?])

/-! ### Drawing leaves no exit after what stops -/

section EndsNil

variable {v : Visit}
  (hr : ∀ r ∈ v.blocks, r.ends = [] → stopsAll r.stmts = true ∨ r.exits = [] ∧ r.first? = none)
  (h : v.ends = [])

include hr h

/-- If drawing leaves no exit, a statement with a chain stops, unless there is no decision in the
chain and its one block draws nothing on the flow from no exit. -/
theorem stops_chain_of_ends_nil {c : Chain} (hc : v.chain? = some c) :
    v.stmt.stops = true ∨ v.exits = [] ∧ v.first? = none := by
  obtain ⟨-, hlaid, hblocks⟩ := close_chain hc
  have hends := (ends_chain hc).mp h
  by_cases hlinks : c.links = []
  · obtain ⟨hlist, hexits, hbefore, -, hafter⟩ := chain_of_links_nil hc hlinks
    have hmem : c.last ∈ v.blocks := hlist ▸ List.mem_singleton_self _
    rcases hr c.last hmem (hends _ (hblocks ▸ hmem)) with hlast | ⟨hnil, hfirst⟩
    · refine Or.inl ((stops_chain hc).mp ?_)
      rw [← hblocks, hlist]
      exact List.forall_mem_singleton.mpr hlast
    · refine Or.inr ⟨hexits ▸ hnil, ?_⟩
      rw [first?, hafter, ← hbefore]
      exact hfirst
  · refine Or.inl ((stops_chain hc).mp fun r hmem => ?_)
    have hne := (hlaid.exits_ne_nil r hmem).resolve_right fun hlast => hlinks hlast.1
    exact (hr r (hblocks ▸ hmem) (hends r hmem)).resolve_right fun hexits => hne hexits.1

/-- If drawing leaves no exit, a guarded statement stops: its body and its handlers are drawn from
nodes of its own, and so is its cleanup. -/
theorem stops_guard_of_ends_nil {g : Guard} (hg : v.guard? = some g) : v.stmt.stops = true := by
  have hstop : ∀ r ∈ v.blocks, (∃ id, r.exits = [Exit.plain id]) → r.ends = [] →
      stopsAll r.stmts = true := by
    rintro r hmem ⟨id, hexits⟩ hnil
    exact (hr r hmem hnil).resolve_right fun hno => absurd (hexits.symm.trans hno.1) (by simp)
  obtain ⟨hbody, horelse, hhandlers, hfinally⟩ := exits_guard hg
  refine (stops_guard hg).mpr ?_
  rcases (ends_guard hg).mp h with hnil | ⟨f, hf, hnil⟩
  · rw [Guard.exits, List.append_eq_nil_iff, List.flatMap_eq_nil_iff] at hnil
    refine Or.inl ⟨?_, fun l hl =>
      hstop l.block (handler_mem_blocks hg hl) ⟨_, hhandlers l hl⟩ (hnil.2 l hl)⟩
    rcases hr g.orelse (orelse_mem_blocks hg) hnil.1 with hstops | ⟨hexits, -⟩
    · exact Or.inr hstops
    · exact Or.inl (hstop g.body (body_mem_blocks hg) ⟨_, hbody⟩ (horelse ▸ hexits))
  · exact Or.inr ⟨f, hf, hstop f.block (finally_mem_blocks hg hf) ⟨_, hfinally f hf⟩ hnil⟩

end EndsNil

/-- A statement from which drawing leaves no exit stops, unless there was none before and nothing is
drawn on the flow. -/
theorem stops_of_ends_nil (v : Visit) (hs : v.before.Sound)
    (hr : ∀ r ∈ v.blocks, r.ends = [] → stopsAll r.stmts = true ∨ r.exits = [] ∧ r.first? = none)
    (h : v.ends = []) : v.stmt.stops = true ∨ v.exits = [] ∧ v.first? = none := by
  obtain ⟨s, es, b⟩ := v
  -- what is drawn from some exit and leaves none stops
  have hstop : ∀ r ∈ (⟨s, es, b⟩ : Visit).blocks, r.exits ≠ [] → r.ends = [] →
      stopsAll r.stmts = true :=
    fun r hmem hne hnil => (hr r hmem hnil).resolve_right fun hexits => hne hexits.1
  cases s with
  | simple | function => exact absurd h (List.cons_ne_nil _ _)
  | branch => exact stops_chain_of_ends_nil hr h rfl
  | loop line text body orelse =>
      exact Or.inl (hstop ⟨orelse, [Exit.plain (loopFrom es b line text body "").head],
        (loopFrom es b line text body "").closed⟩ (by simp [blocks]) (List.cons_ne_nil _ _) h)
  | countedLoop line text init cond update body =>
      rw [ends, lowerStmt_countedLoop] at h
      exact absurd h (List.cons_ne_nil _ _)
  | guarded => exact Or.inl (stops_guard_of_ends_nil hr h rfl)
  | switch => exact stops_chain_of_ends_nil hr h rfl
  | resource line text body close =>
      set r : Block := ⟨body, [Exit.plain (b.freshId line)], b.place es .process text line⟩ with hdef
      rw [ends, lowerStmt_resource] at h
      dsimp only at h
      split_ifs at h with hempty
      · exact Or.inl (hstop r (List.mem_singleton_self r) (List.cons_ne_nil _ _)
          (List.isEmpty_iff.mp hempty))
  | terminal => exact Or.inl rfl
  | container line text members =>
      rw [ends, lowerStmt_container] at h
      exact Or.inr ⟨h, first?_container hs⟩
  | block line body => exact hr ⟨body, es, b⟩ (List.mem_singleton_self _) h
  | skip => exact Or.inr ⟨h, by rw [first?]; exact congrArg (List.find? _) (added_self b)⟩

/-- Drawing leaves no exit after a statement that stops. -/
theorem ends_nil_of_stops (v : Visit) (hd : v.stmt.noDead = true)
    (hr : ∀ r ∈ v.blocks, stopsAll r.stmts = true → r.ends = []) (h : v.stmt.stops = true) :
    v.ends = [] := by
  have hchain : ∀ c, v.chain? = some c → v.ends = [] := by
    intro c hc
    obtain ⟨-, -, hblocks⟩ := close_chain hc
    exact (ends_chain hc).mpr fun r hmem => hr r (hblocks ▸ hmem) ((stops_chain hc).mpr h r hmem)
  have hguard : ∀ g, v.guard? = some g → v.ends = [] := by
    intro g hg
    obtain ⟨-, horelse, -, -⟩ := exits_guard hg
    refine (ends_guard hg).mpr ?_
    rcases (stops_guard hg).mp h with ⟨hnormal, hhandlers⟩ | ⟨f, hf, hstops⟩
    · refine Or.inl ?_
      rw [Guard.exits, List.append_eq_nil_iff, List.flatMap_eq_nil_iff]
      refine ⟨?_, fun l hl => hr l.block (handler_mem_blocks hg hl) (hhandlers l hl)⟩
      rcases hnormal with hbody | hstops
      · have hempty := (noDead_guard hg hd).resolve_right (by simp [hbody])
        rw [Block.ends, hempty, horelse]
        exact hr g.body (body_mem_blocks hg) hbody
      · exact hr g.orelse (orelse_mem_blocks hg) hstops
    · exact Or.inr ⟨f, hf, hr f.block (finally_mem_blocks hg hf) hstops⟩
  obtain ⟨s, es, b⟩ := v
  cases s with
  | branch => exact hchain _ rfl
  | loop line text body orelse =>
      exact hr ⟨orelse, [Exit.plain (loopFrom es b line text body "").head],
        (loopFrom es b line text body "").closed⟩ (by simp [blocks]) h
  | guarded => exact hguard _ rfl
  | switch => exact hchain _ rfl
  | resource line text body close =>
      have hnil := hr ⟨body, [Exit.plain (b.freshId line)], b.place es .process text line⟩
        (List.mem_singleton_self _) h
      rw [ends, lowerStmt_resource]
      dsimp only
      rw [if_pos (List.isEmpty_iff.mpr hnil)]
  | terminal => rfl
  | block line body => exact hr ⟨body, es, b⟩ (List.mem_singleton_self _) h
  | simple | countedLoop | function | container | skip => exact absurd h (by simp [Stmt.stops])

end Visit

namespace Block

/-- A block from which drawing leaves no exit stops, unless there was none before and nothing is
drawn on the flow. -/
theorem stops_of_ends_nil (r : Block) (hs : r.before.Sound)
    (hes : ∀ x ∈ r.exits, x.Pending r.before) (h : r.ends = []) :
    stopsAll r.stmts = true ∨ r.exits = [] ∧ r.first? = none := by
  induction r using Block.induction with
  | nil es b => exact Or.inr ⟨h, congrArg (List.find? _) (added_self b)⟩
  | cons s rest es b hblocks hrest =>
      have hv := Visit.drawn ⟨s, es, b⟩ hs hes
      have hgrows := hv.segment.grows
      have hs₁ := hgrows.sound hs
      rw [stopsAll, Bool.or_eq_true, or_assoc]
      rcases hrest hs₁ hv.segment.pending h with hstops | ⟨hnil, hfirst⟩
      · exact Or.inr (Or.inl hstops)
      have hstmt := Visit.stops_of_ends_nil ⟨s, es, b⟩ hs (fun r hr =>
        hblocks r hr (hv.placed r hr).sound (hv.placed r hr).pending) hnil
      refine hstmt.imp id fun hnone => Or.inr ⟨hnone.1, ?_⟩
      rw [first?_cons hs hes, hnone.2, Option.none_or]
      exact hfirst

/-- Without dead code, drawing leaves no exit after a block that stops. -/
theorem ends_nil_of_stops (r : Block) (hd : noDead r.stmts = true) (h : stopsAll r.stmts = true) :
    r.ends = [] := by
  induction r using Block.induction with
  | nil es b => exact absurd h Bool.false_ne_true
  | cons s rest es b hblocks hrest =>
      obtain ⟨hs, hlast, hdrest⟩ := noDead_cons hd
      rw [stopsAll, Bool.or_eq_true] at h
      have hstmt : s.stops = true → (⟨s, es, b⟩ : Visit).ends = [] := fun hstops =>
        Visit.ends_nil_of_stops ⟨s, es, b⟩ hs (fun r hr =>
          hblocks r hr (Visit.noDead_blocks ⟨s, es, b⟩ hs r hr)) hstops
      rcases h with hstops | hstops
      · obtain rfl := hlast.resolve_right (by simp [hstops])
        exact hstmt hstops
      · exact hrest hdrest hstops

/-- Without dead code, drawing leaves no exit exactly after a block that stops, unless there was none
before and nothing is drawn on the flow. -/
theorem ends_eq_nil_iff (r : Block) (hs : r.before.Sound)
    (hes : ∀ x ∈ r.exits, x.Pending r.before) (hd : noDead r.stmts = true) :
    r.ends = [] ↔ stopsAll r.stmts = true ∨ r.exits = [] ∧ r.first? = none := by
  refine ⟨r.stops_of_ends_nil hs hes, fun h => ?_⟩
  rcases h with hstops | ⟨hnil, hnone⟩
  · exact r.ends_nil_of_stops hd hstops
  · rcases r.opens hs hes with ⟨hp, -⟩ | ⟨n, hfirst, -⟩
    · exact hp.ends_eq.trans hnil
    · exact absurd (hnone.symm.trans hfirst) (by simp)

end Block

end Flowchart
