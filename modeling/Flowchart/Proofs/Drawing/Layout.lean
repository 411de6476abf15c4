import Flowchart.Proofs.Drawing.Flow

/-!
# The layout of a statement

A statement is drawn in two kinds of pieces: nodes of its own, and blocks of statements that it
holds. This module names the pieces. A `Block` is a block together with the exits and the builder
from which it is drawn, a `Visit` is a statement in the same way, and `Visit.blocks` lists the
blocks of a statement's blocks. Branches and switches are laid out as a `Chain` of decisions,
loops as a `Loop`, guarded statements as a `Guard`.

The equations of the last section say that this is what drawing does: `lowerStmt` is rewritten in
terms of the blocks of the blocks. `Visits r v` says that drawing the block `r` comes to draw the
statement `v`, at whatever depth.

## Where a block is drawn

Ids are numbered in the order of drawing, and what an exit becomes depends on what has been drawn since.
So a block is nothing without its place: `Block` and `Visit` carry the exits and the builder that
drawing starts from, and everything else about them is a function of these (`Block.ends`,
`Block.after`).

## Induction

The functions that draw are defined by recursion over statements, blocks, cases, handlers and cleanups
at once, and a proof that follows them has a case for each of these functions. `Block.induction` does
with two: the block with no statements, and a statement before a block, where the blocks of the
statement have been dealt with. It rests on the blocks of a statement being smaller than it
(`Visit.sizeOf_blocks`).

## Main results

* `lowerElse_eq`, `lowerCases_eq`, `lowerHandlers_eq`, `lowerCleanup_some` and the equations
  `lowerStmt_…`: drawing, in terms of the blocks of the blocks.
* `branchChain_laid`, `caseChain_laid`: the decisions of a chain stand one behind the other.
* `Block.induction`: what holds of a block if it holds of the blocks of its statements holds of
  every block.
-/

namespace Flowchart

/-- A block about to be drawn. -/
structure Block where
  stmts : List Stmt
  exits : List Exit
  before : Builder

namespace Block

/-- The exits after a block. -/
def ends (r : Block) : List Exit := (lowerBlock r.stmts r.exits r.before).1

/-- The builder after a block. -/
def after (r : Block) : Builder := (lowerBlock r.stmts r.exits r.before).2

end Block

/-- A statement about to be drawn. -/
structure Visit where
  stmt : Stmt
  exits : List Exit
  before : Builder

namespace Visit

/-- The exits after a statement. -/
def ends (v : Visit) : List Exit := (lowerStmt v.stmt v.exits v.before).1

/-- The builder after a statement. -/
def after (v : Visit) : Builder := (lowerStmt v.stmt v.exits v.before).2

end Visit

namespace Builder

/-- The id of the next node that stands for source text. -/
def freshId (b : Builder) (line : Option Int) : String := idOf .line line b.next

/-- The next node that stands for source text. -/
def freshNode (b : Builder) (shape : Shape) (text : String) (line : Option Int) : Node :=
  ⟨b.freshId line, shape, b.label text, line, b.scopes.head?, text⟩

/-- The next node has the shape that was asked for. -/
@[simp] theorem freshNode_shape (b : Builder) (shape : Shape) (text : String) (line : Option Int) :
    (b.freshNode shape text line).shape = shape := rfl

/-- The builder with one more node, to which the exits lead. -/
def place (b : Builder) (es : List Exit) (shape : Shape) (text : String) (line : Option Int) :
    Builder :=
  (b.addNode shape text line).2.linkAll es (b.freshId line)

/-- The id of the next merge point. -/
def mergeId (b : Builder) : String := idOf (.named "M") none b.next

/-- The next merge point. -/
def mergeNode (b : Builder) : Node := ⟨b.mergeId, .merge, "", none, b.scopes.head?, ""⟩

/-- The next merge point is drawn as one. -/
@[simp] theorem mergeNode_shape (b : Builder) : b.mergeNode.shape = .merge := rfl

/-- The next subgraph. -/
def scopeNode (b : Builder) (text : String) (line : Option Int) : Node :=
  ⟨idOf (.named "S") none b.next, .subgraph, b.label text, line, b.scopes.head?, text⟩

/-- The exits collected in a merge point, if there are any, and the builder with it. -/
def join (b : Builder) (es : List Exit) : List Exit × Builder := Drawing.merge es b

/-- Without exits there is nothing to merge. -/
@[simp] theorem join_nil (b : Builder) : b.join [] = ([], b) := rfl

/-- Exits are led to a new merge point, which is the only exit afterwards. -/
theorem join_of_ne_nil (b : Builder) {es : List Exit} (h : es ≠ []) :
    b.join es = ([Exit.plain b.mergeId], b.addMerge.2.linkAll es b.mergeId) := by
  cases es with
  | nil => exact absurd rfl h
  | cons x es => rfl

/-- Merging adds one node, the merge point. -/
@[simp] theorem join_nodes_of_ne_nil (b : Builder) {es : List Exit} (h : es ≠ []) :
    (b.join es).2.nodes = b.nodes ++ [b.mergeNode] := by
  rw [join_of_ne_nil b h, linkAll_nodes]
  rfl

/-- There is one exit after a merge point, and none where there is no merge point. -/
theorem join_single (b : Builder) (es : List Exit) :
    (b.join es).1 = [] ∨ ∃ id, (b.join es).1 = [Exit.plain id] := by
  cases es with
  | nil => exact Or.inl rfl
  | cons x es => exact Or.inr ⟨_, rfl⟩

end Builder

/-! ### Chains of decisions -/

/-- A node and the block that is drawn from it. -/
structure Link where
  node : String
  block : Block

/-- Decisions one after another, each with the block drawn when it says yes, and the block drawn
when all of them say no. -/
structure Chain where
  links : List Link
  last : Block

namespace Chain

/-- The exits of all blocks of a chain. -/
def ends (c : Chain) : List Exit := c.links.flatMap (·.block.ends) ++ c.last.ends

/-- The blocks of a chain. -/
def blocks (c : Chain) : List Block := c.links.map (·.block) ++ [c.last]

/-- The decisions of a chain. -/
def decisions (c : Chain) : List String := c.links.map (·.node)

/-- The chain with a decision and its block in front. -/
def cons (d : String) (yes : Block) (c : Chain) : Chain := ⟨⟨d, yes⟩ :: c.links, c.last⟩

end Chain

/-- The block that is drawn when a new decision says yes. -/
def yesBlock (es : List Exit) (b : Builder) (text : String) (line : Option Int) (body : List Stmt) :
    Block :=
  ⟨body, [Exit.yes (b.freshId line)], b.place es .decision text line⟩

mutual
/-- The chain of decisions that a branch starts; any other statement is drawn as it is. -/
def branchChain : Stmt → List Exit → Builder → Chain
  | .branch line text cond body orelse, pending, b =>
    let yes := yesBlock pending b (orText cond text) line body
    (elseChain orelse [Exit.no (b.freshId line)] yes.after).cons (b.freshId line) yes
  | s, pending, b => ⟨[], ⟨[s], pending, b⟩⟩

/-- What follows when a decision says no: a branch that stands alone goes on with the chain. -/
def elseChain : List Stmt → List Exit → Builder → Chain
  | [s], pending, b => branchChain s pending b
  | stmts, pending, b => ⟨[], ⟨stmts, pending, b⟩⟩
end

/-- What the first default of a switch does. -/
def defaultBody : List (Case Stmt) → List Stmt
  | [] => []
  | ⟨_, _, isDefault, body⟩ :: rest => if isDefault then body else defaultBody rest

/-- The chain of decisions of a switch, one for each case that is no default. -/
def caseChain (default : List Stmt) : List (Case Stmt) → List Exit → Builder → Chain
  | [], pending, b => ⟨[], ⟨default, pending, b⟩⟩
  | ⟨label, line, isDefault, body⟩ :: rest, pending, b =>
    if isDefault then caseChain default rest pending b
    else
      let yes := yesBlock pending b label line body
      (caseChain default rest [Exit.no (b.freshId line)] yes.after).cons (b.freshId line) yes

namespace Chain

/-- How a chain is drawn from the exits `es`: each decision takes what is pending, and what pends
next is that it says no. -/
inductive Laid : List Exit → Builder → Chain → Prop
  | last (r : Block) : Laid r.exits r.before ⟨[], r⟩
  | cons (es : List Exit) (b : Builder) (text : String) (line : Option Int) (body : List Stmt)
      {c : Chain} : Laid [Exit.no (b.freshId line)] (yesBlock es b text line body).after c →
      Laid es b (c.cons (b.freshId line) (yesBlock es b text line body))

/-- The exits and the builder after a chain: all exits are collected, unless there is no
decision. -/
def close (c : Chain) : List Exit × Builder :=
  if c.links.isEmpty then (c.last.ends, c.last.after) else c.last.after.join c.ends

end Chain

/-- The chain of decisions of a branch or a switch. -/
def Visit.chain? (v : Visit) : Option Chain :=
  match v.stmt with
  | .branch .. => some (branchChain v.stmt v.exits v.before)
  | .switch _ _ _ cases => some (caseChain (defaultBody cases) cases v.exits v.before)
  | _ => none

/-! ### Loops -/

/-- A loop: its head, its body, and what a counted loop does after its body. -/
structure Loop where
  head : String
  body : Block
  line : Option Int
  update : String

namespace Loop

/-- Whether a node is drawn for the update. -/
def updates (l : Loop) : Bool := !(l.update.isEmpty || l.body.ends.isEmpty)

/-- The exits that lead back to the head: those of the body, or that of the update. -/
def ends (l : Loop) : List Exit :=
  if l.updates then [Exit.plain (l.body.after.freshId l.line)] else l.body.ends

/-- The builder with the body and the update. -/
def after (l : Loop) : Builder :=
  if l.updates then l.body.after.place l.body.ends .process l.update l.line else l.body.after

/-- The builder with the edges back to the head. -/
def closed (l : Loop) : Builder := l.after.backAll l.ends l.head

end Loop

/-- The exits and the builder after the start of a counted loop. -/
def countedEntry (line : Option Int) (init : String) (es : List Exit) (b : Builder) :
    List Exit × Builder :=
  if init.isEmpty then (es, b) else ([Exit.plain (b.freshId line)], b.place es .process init line)

/-- The loop with a head that is reached from `es`. -/
def loopFrom (es : List Exit) (b : Builder) (line : Option Int) (text : String) (body : List Stmt)
    (update : String) : Loop :=
  let head := b.freshId line
  ⟨head, ⟨body, [Exit.plain head], b.place es .loop text line⟩, line, update⟩

/-- The loop that a statement is drawn as. -/
def Visit.loop? (v : Visit) : Option Loop :=
  match v.stmt with
  | .loop line text body _ => some (loopFrom v.exits v.before line text body "")
  | .countedLoop line text init cond update body =>
    let entry := countedEntry line init v.exits v.before
    some (loopFrom entry.1 entry.2 line (orText cond text) body update)
  | _ => none

/-! ### Guarded statements -/

/-- The handlers of a guarded statement, each with the block drawn from it, and the builder after
them. -/
def handlerLinks (entry : String) : List (Handler Stmt) → Builder → List Link × Builder
  | [], b => ([], b)
  | ⟨label, line, body⟩ :: rest, b =>
    let h := b.freshId line
    let r : Block := ⟨body, [Exit.plain h],
      (b.addNode .flag label line).2.addEdge entry h (some "Exception") .dashed⟩
    let others := handlerLinks entry rest r.after
    (⟨h, r⟩ :: others.1, others.2)

/-- The cleanup of a guarded statement that starts at `entry` and goes on at `after`. -/
def cleanupLink (entry : String) (after : List Exit) (c : Cleanup Stmt) (b : Builder) : Link :=
  let f := b.freshId c.line
  let b₁ := (b.addNode .subroutine "Finally" c.line).2
  ⟨f, ⟨c.body, [Exit.plain f],
    if after.isEmpty then b₁.addEdge entry f none .dashed else b₁.linkAll after f⟩⟩

/-- A guarded statement: its entry, its body with what follows it, its handlers, and the builder
after them. -/
structure Guard where
  entry : String
  body : Block
  orelse : Block
  handlers : List Link
  handled : Builder

namespace Guard

/-- The exits that are collected before the cleanup. -/
def exits (g : Guard) : List Exit := g.orelse.ends ++ g.handlers.flatMap (·.block.ends)

/-- The exits and the builder before the cleanup. -/
def joined (g : Guard) : List Exit × Builder := g.handled.join g.exits

/-- The cleanup, if there is one. -/
def cleanup? (g : Guard) (c : Option (Cleanup Stmt)) : Option Link :=
  c.map fun c => cleanupLink g.entry g.joined.1 c g.joined.2

end Guard

/-- The guarded statement that is reached from `es`. -/
def guardFrom (es : List Exit) (b : Builder) (line : Option Int) (text : String)
    (body orelse : List Stmt) (handlers : List (Handler Stmt)) : Guard :=
  let entry := b.freshId line
  let r : Block := ⟨body, [Exit.plain entry], b.place es .flag (orText text "Try") line⟩
  let o : Block := ⟨orelse, r.ends, r.after⟩
  let hs := handlerLinks entry handlers o.after
  ⟨entry, r, o, hs.1, hs.2⟩

/-! ### The blocks of a statement -/

/-- The members of a container, each a block of its own that nothing leads to. -/
def memberBlocks : List Stmt → Builder → List Block
  | [], _ => []
  | s :: rest, b => ⟨[s], [], b⟩ :: memberBlocks rest (⟨[s], [], b⟩ : Block).after

/-- The blocks that a statement holds, as they are drawn. -/
def Visit.blocks (v : Visit) : List Block :=
  match v.stmt with
  | .branch .. => (branchChain v.stmt v.exits v.before).blocks
  | .switch _ _ _ cases => (caseChain (defaultBody cases) cases v.exits v.before).blocks
  | .loop line text body orelse =>
    let l := loopFrom v.exits v.before line text body ""
    [l.body, ⟨orelse, [Exit.plain l.head], l.closed⟩]
  | .countedLoop line text init cond update body =>
    let entry := countedEntry line init v.exits v.before
    [(loopFrom entry.1 entry.2 line (orText cond text) body update).body]
  | .guarded line text body orelse handlers cleanup =>
    let g := guardFrom v.exits v.before line text body orelse handlers
    g.body :: g.orelse :: (g.handlers.map (·.block) ++ ((g.cleanup? cleanup).map (·.block)).toList)
  | .resource line text body _ =>
    [⟨body, [Exit.plain (v.before.freshId line)], v.before.place v.exits .process text line⟩]
  | .function line text body =>
    [⟨body, [Exit.plain (v.before.freshId line)], v.before.place v.exits .stadium text line⟩]
  | .container line text members => memberBlocks members (v.before.openSubgraph text line).2
  | .block _ body => [⟨body, v.exits, v.before⟩]
  | .simple _ _ | .terminal _ _ | .skip => []

/-- Whether a statement starts with a node of its own, to which its exits lead. -/
def Stmt.hasHead : Stmt → Bool
  | .switch _ _ _ cases => !cases.all (·.isDefault)
  | .container _ _ _ | .block _ _ | .skip => false
  | _ => true

/-- The guarded statement that a statement is drawn as. -/
def Visit.guard? (v : Visit) : Option Guard :=
  match v.stmt with
  | .guarded line text body orelse handlers _ =>
    some (guardFrom v.exits v.before line text body orelse handlers)
  | _ => none

/-- The cleanup of a guarded statement. -/
def Visit.finally? (v : Visit) : Option Link :=
  match v.stmt with
  | .guarded line text body orelse handlers cleanup =>
    (guardFrom v.exits v.before line text body orelse handlers).cleanup? cleanup
  | _ => none

/-- The node of a function and its body. -/
def Visit.function? (v : Visit) : Option Link :=
  match v.stmt with
  | .function line text body =>
    some ⟨v.before.freshId line,
      ⟨body, [Exit.plain (v.before.freshId line)], v.before.place v.exits .stadium text line⟩⟩
  | _ => none

/-- The subgraph that a container is drawn as. -/
def Visit.scope? (v : Visit) : Option Node :=
  match v.stmt with
  | .container line text _ => some (v.before.scopeNode text line)
  | _ => none

/-- The members of a container. -/
def Visit.members (v : Visit) : List Block :=
  match v.stmt with
  | .container line text members => memberBlocks members (v.before.openSubgraph text line).2
  | _ => []

/-- The node that fills a container whose members draw none. -/
def Visit.placeholder? (v : Visit) : Option Node :=
  match v.stmt with
  | .container line text members =>
    let b := (lowerMembers members (v.before.openSubgraph text line).2).2
    if b.nodes.length = v.before.nodes.length + 1 then some (b.freshNode .process text line)
    else none
  | _ => none

/-- Drawing the block `r` comes to draw the statement `v`. -/
inductive Visits : Block → Visit → Prop
  | here {s : Stmt} {rest : List Stmt} {es : List Exit} {b : Builder} :
      Visits ⟨s :: rest, es, b⟩ ⟨s, es, b⟩
  | later {s : Stmt} {rest : List Stmt} {es : List Exit} {b : Builder} {v : Visit} :
      Visits ⟨rest, (lowerStmt s es b).1, (lowerStmt s es b).2⟩ v → Visits ⟨s :: rest, es, b⟩ v
  | inside {s : Stmt} {rest : List Stmt} {es : List Exit} {b : Builder} {r : Block} {v : Visit} :
      r ∈ (⟨s, es, b⟩ : Visit).blocks → Visits r v → Visits ⟨s :: rest, es, b⟩ v

/-! ### Drawing follows the layout -/

namespace Chain

/-- The ends of a chain are those of its first block and those of the rest. -/
@[simp] theorem cons_ends (d : String) (yes : Block) (c : Chain) :
    (c.cons d yes).ends = yes.ends ++ c.ends := by
  simp [cons, ends]

/-- The blocks of a chain are its first block and those of the rest. -/
@[simp] theorem cons_blocks (d : String) (yes : Block) (c : Chain) :
    (c.cons d yes).blocks = yes :: c.blocks := by
  simp [cons, blocks]

/-- The last block of a chain is that of its rest. -/
@[simp] theorem cons_last (d : String) (yes : Block) (c : Chain) :
    (c.cons d yes).last = c.last := rfl

/-- A chain is closed by merging the ends of all its blocks. -/
theorem cons_close (d : String) (yes : Block) (c : Chain) :
    (c.cons d yes).close = c.last.after.join (yes.ends ++ c.ends) := by
  rw [← cons_ends d]
  rfl

end Chain

/-- What follows a decision that says no is the chain that goes on there. -/
theorem lowerElse_eq (d : String) (stmts : List Stmt) (b : Builder) :
    lowerElse d stmts b = ((elseChain stmts [Exit.no d] b).ends,
      (elseChain stmts [Exit.no d] b).last.after) := by
  match stmts with
  | [] => rfl
  | s :: s' :: rest => cases s <;> rfl
  | [s] =>
      cases s with
      | branch line text cond body orelse =>
          let yes := yesBlock [Exit.no d] b (orText cond text) line body
          have hlower : lowerElse d [.branch line text cond body orelse] b =
              (yes.ends ++ (lowerElse (b.freshId line) orelse yes.after).1,
                (lowerElse (b.freshId line) orelse yes.after).2) := rfl
          have hchain : elseChain [.branch line text cond body orelse] [Exit.no d] b =
              (elseChain orelse [Exit.no (b.freshId line)] yes.after).cons (b.freshId line) yes :=
            rfl
          rw [hlower, hchain, lowerElse_eq (b.freshId line) orelse yes.after, Chain.cons_ends]
          rfl
      | _ => rfl

/-- The default case is drawn as its body. -/
theorem lowerDefault_eq (cases : List (Case Stmt)) (es : List Exit) (b : Builder) :
    lowerDefault cases es b = lowerBlock (defaultBody cases) es b := by
  induction cases with
  | nil => rfl
  | cons c rest ih =>
      obtain ⟨label, line, isDefault, body⟩ := c
      cases isDefault with
      | true => rfl
      | false => exact ih

/-- The cases of a switch give the exits of the chain's blocks and the exits on which the chain
ends. -/
theorem lowerCases_eq (default : List Stmt) (cases : List (Case Stmt)) (pending : List Exit)
    (b : Builder) :
    lowerCases cases pending b =
      (((caseChain default cases pending b).links.flatMap (·.block.ends),
        (caseChain default cases pending b).last.exits),
        (caseChain default cases pending b).last.before) := by
  induction cases generalizing pending b with
  | nil => rfl
  | cons c rest ih =>
      obtain ⟨label, line, isDefault, body⟩ := c
      cases isDefault with
      | true => exact ih pending b
      | false =>
          let yes := yesBlock pending b label line body
          have hlower : lowerCases (⟨label, line, false, body⟩ :: rest) pending b =
              let c := lowerCases rest [Exit.no (b.freshId line)] yes.after
              ((yes.ends ++ c.1.1, c.1.2), c.2) := rfl
          rw [hlower, ih]
          rfl

mutual
/-- A branch is drawn as a chain. -/
theorem branchChain_laid (s : Stmt) (es : List Exit) (b : Builder) :
    (branchChain s es b).Laid es b := by
  cases s with
  | branch line text cond body orelse =>
      exact Chain.Laid.cons es b (orText cond text) line body (elseChain_laid orelse _ _)
  | _ => exact Chain.Laid.last ⟨_, es, b⟩

/-- The decisions of an else part stand one behind the other. -/
theorem elseChain_laid (stmts : List Stmt) (es : List Exit) (b : Builder) :
    (elseChain stmts es b).Laid es b := by
  match stmts with
  | [] => exact Chain.Laid.last ⟨[], es, b⟩
  | [s] => exact branchChain_laid s es b
  | s :: s' :: rest => exact Chain.Laid.last ⟨s :: s' :: rest, es, b⟩
end

/-- A switch is drawn as a chain. -/
theorem caseChain_laid (default : List Stmt) (cases : List (Case Stmt)) (es : List Exit)
    (b : Builder) : (caseChain default cases es b).Laid es b := by
  induction cases generalizing es b with
  | nil => exact Chain.Laid.last ⟨default, es, b⟩
  | cons c rest ih =>
      obtain ⟨label, line, isDefault, body⟩ := c
      cases isDefault with
      | true => exact ih es b
      | false => exact Chain.Laid.cons es b label line body (ih _ _)

/-- Where every case is a default there is no decision, and the other way round. -/
theorem caseChain_links_isEmpty (default : List Stmt) (cases : List (Case Stmt))
    (es : List Exit) (b : Builder) :
    (caseChain default cases es b).links.isEmpty = cases.all (·.isDefault) := by
  induction cases generalizing es b with
  | nil => rfl
  | cons c rest ih =>
      obtain ⟨label, line, isDefault, body⟩ := c
      cases isDefault with
      | true => exact ih es b
      | false => rfl

/-- The last block of the cases is the default. -/
theorem caseChain_last_stmts (default : List Stmt) (cases : List (Case Stmt)) (es : List Exit)
    (b : Builder) : (caseChain default cases es b).last.stmts = default := by
  induction cases generalizing es b with
  | nil => rfl
  | cons c rest ih =>
      obtain ⟨label, line, isDefault, body⟩ := c
      cases isDefault with
      | true => exact ih es b
      | false => exact ih _ _

/-- Without decisions the last block is reached from where the chain is. -/
theorem Chain.Laid.last_of_links {es : List Exit} {b : Builder} {c : Chain} (h : c.Laid es b)
    (hlinks : c.links = []) : c.last.exits = es ∧ c.last.before = b := by
  cases h with
  | last r => exact ⟨rfl, rfl⟩
  | cons => exact absurd hlinks (by simp [Chain.cons])

/-- There are exits before the cleanup if there are some to collect. -/
theorem Guard.joined_eq_nil_iff (g : Guard) : g.joined.1 = [] ↔ g.exits = [] := by
  by_cases hnil : g.exits = []
  · simp [joined, hnil]
  · simp [joined, Builder.join_of_ne_nil _ hnil, hnil]

/-- The handlers of a guarded statement are drawn one after another. -/
theorem lowerHandlers_eq (entry : String) (handlers : List (Handler Stmt)) (b : Builder) :
    lowerHandlers entry handlers b = ((handlerLinks entry handlers b).1.flatMap (·.block.ends),
      (handlerLinks entry handlers b).2) := by
  induction handlers generalizing b with
  | nil => rfl
  | cons h rest ih =>
      obtain ⟨label, line, body⟩ := h
      let r : Block := ⟨body, [Exit.plain (b.freshId line)],
        (b.addNode .flag label line).2.addEdge entry (b.freshId line) (some "Exception") .dashed⟩
      have hlower : lowerHandlers entry (⟨label, line, body⟩ :: rest) b =
          (r.ends ++ (lowerHandlers entry rest r.after).1,
            (lowerHandlers entry rest r.after).2) := rfl
      rw [hlower, ih]
      rfl

/-- Each handler is drawn from its own node. -/
theorem handlerLinks_exits (entry : String) (handlers : List (Handler Stmt)) (b : Builder) :
    ∀ l ∈ (handlerLinks entry handlers b).1, l.block.exits = [Exit.plain l.node] := by
  induction handlers generalizing b with
  | nil => simp [handlerLinks]
  | cons h rest ih =>
      obtain ⟨label, line, body⟩ := h
      rw [handlerLinks, List.forall_mem_cons]
      exact ⟨rfl, ih _⟩

/-- A cleanup has exits only if it is reached from some. -/
theorem lowerCleanup_some (entry : String) (after : List Exit) (c : Cleanup Stmt) (b : Builder) :
    lowerCleanup entry after (some c) b =
      (if after.isEmpty then [] else (cleanupLink entry after c b).block.ends,
        (cleanupLink entry after c b).block.after) := by
  cases after <;> rfl

/-- A guarded statement is drawn as its guard, and then its cleanup. -/
theorem lowerStmt_guarded (line : Option Int) (text : String) (body orelse : List Stmt)
    (handlers : List (Handler Stmt)) (cleanup : Option (Cleanup Stmt)) (es : List Exit)
    (b : Builder) : lowerStmt (.guarded line text body orelse handlers cleanup) es b =
      lowerCleanup (guardFrom es b line text body orelse handlers).entry
        (guardFrom es b line text body orelse handlers).joined.1 cleanup
        (guardFrom es b line text body orelse handlers).joined.2 := by
  let g := guardFrom es b line text body orelse handlers
  have hlower : lowerStmt (.guarded line text body orelse handlers cleanup) es b =
      let hs := lowerHandlers g.entry handlers g.orelse.after
      let after := hs.2.join (g.orelse.ends ++ hs.1)
      lowerCleanup g.entry after.1 cleanup after.2 := rfl
  rw [hlower, lowerHandlers_eq]
  rfl

/-- A loop is drawn as its layout, and then what follows when it ends by itself. -/
theorem lowerStmt_loop (line : Option Int) (text : String) (body orelse : List Stmt)
    (es : List Exit) (b : Builder) : lowerStmt (.loop line text body orelse) es b =
      lowerBlock orelse [Exit.plain (loopFrom es b line text body "").head]
        (loopFrom es b line text body "").closed := rfl

/-- A counted loop is drawn as its start, its layout and the way back. -/
theorem lowerStmt_countedLoop (line : Option Int) (text init cond update : String)
    (body : List Stmt) (es : List Exit) (b : Builder) :
    lowerStmt (.countedLoop line text init cond update body) es b =
      let entry := countedEntry line init es b
      let l := loopFrom entry.1 entry.2 line (orText cond text) body update
      ([Exit.plain l.head], l.closed) := by
  -- what follows the start of the loop, whatever the start was
  let tail (es : List Exit) : Drawing (List Exit) := do
    let head ← Drawing.nodeAfter es .loop (orText cond text) line
    let ends ← lowerBlock body [⟨head, none, .solid⟩]
    let ends ←
      if update.isEmpty || ends.isEmpty then pure ends
      else do
        let n ← Drawing.nodeAfter ends .process update line
        pure [⟨n, none, .solid⟩]
    Drawing.repeatTo head ends
    return [⟨head, none, .solid⟩]
  have htail : ∀ es b, tail es b =
      ([Exit.plain (loopFrom es b line (orText cond text) body update).head],
        (loopFrom es b line (orText cond text) body update).closed) := by
    intro es b
    let l := loopFrom es b line (orText cond text) body update
    have hcond : (update.isEmpty || l.body.ends.isEmpty) = !l.updates := (Bool.not_not _).symm
    show ((if update.isEmpty || l.body.ends.isEmpty then _ else _ : Drawing (List Exit))
      l.body.after) = ([Exit.plain l.head], l.closed)
    rw [Loop.closed, Loop.after, Loop.ends, hcond]
    cases l.updates <;> rfl
  have hlower : lowerStmt (.countedLoop line text init cond update body) es =
      if init.isEmpty then tail es
      else fun b => tail [Exit.plain (b.freshId line)] (b.place es .process init line) := rfl
  rw [hlower, countedEntry]
  split_ifs with hinit
  · exact htail es b
  · exact htail _ _

/-- A resource is drawn as its node, its body and what closing it is called. -/
theorem lowerStmt_resource (line : Option Int) (text : String) (body : List Stmt) (close : String)
    (es : List Exit) (b : Builder) : lowerStmt (.resource line text body close) es b =
      let r : Block := ⟨body, [Exit.plain (b.freshId line)], b.place es .process text line⟩
      if r.ends.isEmpty then ([], r.after)
      else ([Exit.plain (r.after.freshId line)],
        r.after.place r.ends .process (orText close "Close") line) := by
  let r : Block := ⟨body, [Exit.plain (b.freshId line)], b.place es .process text line⟩
  have hlower : lowerStmt (.resource line text body close) es b =
      (if r.ends.isEmpty then fun b => ([], b)
      else fun b => ([Exit.plain (b.freshId line)],
        b.place r.ends .process (orText close "Close") line) : Drawing (List Exit)) r.after := rfl
  rw [hlower]
  dsimp only
  split_ifs <;> rfl

/-- A container is opened, its members are drawn, and it is closed again. -/
theorem lowerStmt_container (line : Option Int) (text : String) (members : List Stmt)
    (es : List Exit) (b : Builder) : lowerStmt (.container line text members) es b =
      let b₁ := (lowerMembers members (b.openSubgraph text line).2).2
      (es, if b₁.nodes.length = b.nodes.length + 1 then
          (b₁.addNode .process text line).2.closeSubgraph
        else b₁.closeSubgraph) := by
  let b₁ := (lowerMembers members (b.openSubgraph text line).2).2
  have hlower : lowerStmt (.container line text members) es b =
      (if b₁.nodes.length = b.nodes.length + 1 then
        fun b => (es, (b.addNode .process text line).2.closeSubgraph)
      else fun b => (es, b.closeSubgraph) : Drawing (List Exit)) b₁ := rfl
  rw [hlower]
  dsimp only
  split_ifs <;> rfl

namespace Visit

variable {v : Visit}

/-- A statement with a chain is drawn as the chain is. -/
theorem close_chain {c : Chain} (h : v.chain? = some c) :
    (v.ends, v.after) = c.close ∧ c.Laid v.exits v.before ∧ v.blocks = c.blocks := by
  obtain ⟨s, es, b⟩ := v
  cases s with
  | branch line text cond body orelse =>
      obtain rfl := Option.some.inj h
      refine ⟨?_, branchChain_laid _ es b, rfl⟩
      let yes := yesBlock es b (orText cond text) line body
      have hlower : lowerStmt (.branch line text cond body orelse) es b =
          (lowerElse (b.freshId line) orelse yes.after).2.join
            (yes.ends ++ (lowerElse (b.freshId line) orelse yes.after).1) := rfl
      have hchain : branchChain (.branch line text cond body orelse) es b =
          (elseChain orelse [Exit.no (b.freshId line)] yes.after).cons (b.freshId line) yes := rfl
      rw [hchain, Chain.cons_close]
      refine hlower.trans ?_
      rw [lowerElse_eq]
  | switch line text subject cases =>
      obtain rfl := Option.some.inj h
      have hlaid := caseChain_laid (defaultBody cases) cases es b
      refine ⟨?_, hlaid, rfl⟩
      have hempty := caseChain_links_isEmpty (defaultBody cases) cases es b
      have hlower : lowerStmt (.switch line text subject cases) es =
          if cases.all (·.isDefault) then lowerDefault cases es
          else fun b =>
            let taken := lowerCases cases es b
            let rest := lowerDefault cases taken.1.2 taken.2
            rest.2.join (taken.1.1 ++ rest.1) := rfl
      refine (congrFun hlower b).trans ?_
      have hlast : ∀ r : Block, r.stmts = defaultBody cases →
          lowerDefault cases r.exits r.before = (r.ends, r.after) := by
        rintro ⟨stmts, exits, before⟩ rfl
        rw [lowerDefault_eq]
        rfl
      have hstmts := caseChain_last_stmts (defaultBody cases) cases es b
      by_cases hall : cases.all (·.isDefault) = true
      · rw [hall, List.isEmpty_iff] at hempty
        obtain ⟨hexits, hbefore⟩ := hlaid.last_of_links hempty
        rw [if_pos hall, Chain.close, if_pos (List.isEmpty_iff.mpr hempty), ← hlast _ hstmts,
          hexits, hbefore]
      · rw [if_neg hall, Chain.close, if_neg (hempty.symm ▸ hall),
          lowerCases_eq (defaultBody cases)]
        dsimp only
        rw [hlast _ hstmts]
        rfl
  | _ => exact absurd h (by simp [chain?])

/-- A chain without decisions is its last block, and that is all that is drawn for the statement. -/
theorem chain_of_links_nil {c : Chain} (h : v.chain? = some c) (hlinks : c.links = []) :
    v.blocks = [c.last] ∧ c.last.exits = v.exits ∧ c.last.before = v.before ∧
      v.ends = c.last.ends ∧ v.after = c.last.after := by
  obtain ⟨hclose, hlaid, hblocks⟩ := close_chain h
  obtain ⟨hexits, hbefore⟩ := hlaid.last_of_links hlinks
  rw [Chain.close, if_pos (List.isEmpty_iff.mpr hlinks)] at hclose
  obtain ⟨hends, hafter⟩ := Prod.mk.inj hclose
  refine ⟨?_, hexits, hbefore, hends, hafter⟩
  rw [hblocks, Chain.blocks, hlinks]
  rfl

/-- A guarded statement without a cleanup ends with its exits collected. -/
theorem close_guard_none {g : Guard} (h : v.guard? = some g) (hf : v.finally? = none) :
    v.ends = g.joined.1 ∧ v.after = g.joined.2 := by
  obtain ⟨s, es, b⟩ := v
  cases s with
  | guarded line text body orelse handlers cleanup =>
      obtain rfl := Option.some.inj h
      obtain rfl := Option.map_eq_none_iff.mp hf
      exact Prod.mk.inj (lowerStmt_guarded line text body orelse handlers none es b)
  | _ => exact absurd h (by simp [guard?])

/-- A guarded statement with a cleanup ends with it, and is left through it if it is reached from
some exit. -/
theorem close_guard_some {g : Guard} {f : Link} (h : v.guard? = some g)
    (hf : v.finally? = some f) :
    v.ends = (if g.joined.1.isEmpty then [] else f.block.ends) ∧ v.after = f.block.after := by
  obtain ⟨s, es, b⟩ := v
  cases s with
  | guarded line text body orelse handlers cleanup =>
      obtain rfl := Option.some.inj h
      obtain ⟨c, rfl, rfl⟩ := Option.map_eq_some_iff.mp hf
      refine Prod.mk.inj ((lowerStmt_guarded line text body orelse handlers (some c) es b).trans ?_)
      exact lowerCleanup_some _ _ c _
  | _ => exact absurd h (by simp [guard?])

/-- The cleanup of a guarded statement is drawn after its exits have been collected. -/
theorem exists_cleanup {g : Guard} {f : Link} (h : v.guard? = some g) (hf : v.finally? = some f) :
    ∃ c, f = cleanupLink g.entry g.joined.1 c g.joined.2 := by
  obtain ⟨s, es, b⟩ := v
  cases s with
  | guarded =>
      obtain rfl := Option.some.inj h
      obtain ⟨c, -, rfl⟩ := Option.map_eq_some_iff.mp hf
      exact ⟨c, rfl⟩
  | _ => exact absurd h (by simp [guard?])

/-- The blocks of a guarded statement. -/
theorem blocks_guard {g : Guard} (h : v.guard? = some g) : v.blocks =
    g.body :: g.orelse :: (g.handlers.map (·.block) ++ (v.finally?.map (·.block)).toList) := by
  obtain ⟨s, es, b⟩ := v
  cases s with
  | guarded =>
      obtain rfl := Option.some.inj h
      rfl
  | _ => exact absurd h (by simp [guard?])

/-- The body of a guard is one of the statement's blocks. -/
theorem body_mem_blocks {g : Guard} (h : v.guard? = some g) : g.body ∈ v.blocks := by
  simp [blocks_guard h]

/-- So is what follows if nothing is thrown. -/
theorem orelse_mem_blocks {g : Guard} (h : v.guard? = some g) : g.orelse ∈ v.blocks := by
  simp [blocks_guard h]

/-- So is the body of each handler. -/
theorem handler_mem_blocks {g : Guard} (h : v.guard? = some g) {l : Link} (hl : l ∈ g.handlers) :
    l.block ∈ v.blocks := by
  rw [blocks_guard h]
  exact List.mem_cons_of_mem _ (List.mem_cons_of_mem _
    (List.mem_append_left _ (List.mem_map_of_mem hl)))

/-- So is the body of the cleanup. -/
theorem finally_mem_blocks {g : Guard} (h : v.guard? = some g) {f : Link} (hf : f ∈ v.finally?) :
    f.block ∈ v.blocks := by
  simp [blocks_guard h, Option.mem_def.mp hf]

/-- A guarded statement starts with its entry, and its body is drawn from there. -/
theorem exists_entry {g : Guard} (h : v.guard? = some g) : ∃ text line,
    g.entry = v.before.freshId line ∧ g.body.before = v.before.place v.exits .flag text line := by
  obtain ⟨s, es, b⟩ := v
  cases s with
  | guarded line text body orelse handlers cleanup =>
      obtain rfl := Option.some.inj h
      exact ⟨_, line, rfl, rfl⟩
  | _ => exact absurd h (by simp [guard?])

/-- What follows a guarded body is drawn after it, and then the handlers are. -/
theorem exists_handlers {g : Guard} (h : v.guard? = some g) : g.orelse.before = g.body.after ∧
    ∃ handlers, (g.handlers, g.handled) = handlerLinks g.entry handlers g.orelse.after := by
  obtain ⟨s, es, b⟩ := v
  cases s with
  | guarded line text body orelse handlers cleanup =>
      obtain rfl := Option.some.inj h
      exact ⟨rfl, handlers, rfl⟩
  | _ => exact absurd h (by simp [guard?])

/-- From where the blocks of a guarded statement are drawn. -/
theorem exits_guard {g : Guard} (h : v.guard? = some g) :
    g.body.exits = [Exit.plain g.entry] ∧ g.orelse.exits = g.body.ends ∧
      (∀ l ∈ g.handlers, l.block.exits = [Exit.plain l.node]) ∧
      ∀ f ∈ v.finally?, f.block.exits = [Exit.plain f.node] := by
  obtain ⟨s, es, b⟩ := v
  cases s with
  | guarded line text body orelse handlers cleanup =>
      obtain rfl := Option.some.inj h
      refine ⟨rfl, rfl, handlerLinks_exits _ handlers _, fun f hf => ?_⟩
      obtain ⟨c, -, rfl⟩ := Option.map_eq_some_iff.mp hf
      rfl
  | _ => exact absurd h (by simp [guard?])

/-- A statement with a chain has a node of its own exactly if the chain has a decision. -/
theorem hasHead_iff_links {v : Visit} {c : Chain} (h : v.chain? = some c) :
    v.stmt.hasHead = true ↔ c.links ≠ [] := by
  obtain ⟨s, es, b⟩ := v
  cases s with
  | branch line text cond body orelse =>
      obtain rfl := Option.some.inj h
      exact iff_of_true rfl (List.cons_ne_nil _ _)
  | switch line text subject cases =>
      obtain rfl := Option.some.inj h
      rw [Stmt.hasHead, ← caseChain_links_isEmpty (defaultBody cases) cases es b, ne_eq,
        ← List.isEmpty_iff, Bool.not_eq_true', Bool.not_eq_true]
  | _ => exact absurd h (by simp [chain?])

end Visit

/-! ### Induction on what is drawn -/

mutual
/-- The blocks of a branch's chain are smaller than the branch. -/
theorem sizeOf_branchChain (line : Option Int) (text cond : String) (body orelse : List Stmt)
    (es : List Exit) (b : Builder) :
    ∀ r ∈ (branchChain (.branch line text cond body orelse) es b).blocks,
      sizeOf r.stmts < sizeOf (Stmt.branch line text cond body orelse) := by
  intro r hr
  have hblocks : (branchChain (.branch line text cond body orelse) es b).blocks =
      yesBlock es b (orText cond text) line body :: (elseChain orelse [Exit.no (b.freshId line)]
        (yesBlock es b (orText cond text) line body).after).blocks := Chain.cons_blocks ..
  simp only [Stmt.branch.sizeOf_spec]
  rcases List.mem_cons.mp (hblocks ▸ hr) with rfl | hr
  · simp only [yesBlock]
    omega
  · have := sizeOf_elseChain orelse _ _ r hr
    omega
termination_by 1 + sizeOf orelse

/-- The blocks of an else part are no larger than the else part. -/
theorem sizeOf_elseChain (stmts : List Stmt) (es : List Exit) (b : Builder) :
    ∀ r ∈ (elseChain stmts es b).blocks, sizeOf r.stmts ≤ sizeOf stmts := by
  match stmts with
  | [] => simp [elseChain, Chain.blocks]
  | s :: s' :: rest => simp [elseChain, Chain.blocks]
  | [s] =>
      cases s with
      | branch line text cond body orelse =>
          intro r hr
          have := sizeOf_branchChain line text cond body orelse es b r hr
          simp only [List.cons.sizeOf_spec]
          omega
      | _ => simp [elseChain, branchChain, Chain.blocks]
termination_by sizeOf stmts
decreasing_by
  simp only [List.cons.sizeOf_spec, Stmt.branch.sizeOf_spec]
  omega
end

/-- The body of the default is no larger than the cases. -/
theorem sizeOf_defaultBody (cases : List (Case Stmt)) :
    sizeOf (defaultBody cases) ≤ sizeOf cases := by
  induction cases with
  | nil => simp [defaultBody]
  | cons c rest ih =>
      obtain ⟨label, line, isDefault, body⟩ := c
      simp only [List.cons.sizeOf_spec, Case.mk.sizeOf_spec, defaultBody]
      split_ifs <;> omega

/-- The blocks of the cases are no larger than the cases, the default aside. -/
theorem sizeOf_caseChain (default : List Stmt) (cases : List (Case Stmt)) (es : List Exit)
    (b : Builder) : ∀ r ∈ (caseChain default cases es b).blocks,
      sizeOf r.stmts ≤ sizeOf cases ∨ r.stmts = default := by
  induction cases generalizing es b with
  | nil => simp [caseChain, Chain.blocks]
  | cons c rest ih =>
      obtain ⟨label, line, isDefault, body⟩ := c
      intro r hr
      simp only [List.cons.sizeOf_spec, Case.mk.sizeOf_spec]
      cases isDefault with
      | true => exact (ih es b r hr).imp (fun h => by omega) id
      | false =>
          have hblocks : (caseChain default (⟨label, line, false, body⟩ :: rest) es b).blocks =
              yesBlock es b label line body :: (caseChain default rest [Exit.no (b.freshId line)]
                (yesBlock es b label line body).after).blocks := Chain.cons_blocks ..
          rcases List.mem_cons.mp (hblocks ▸ hr) with rfl | hr
          · refine Or.inl ?_
            simp only [yesBlock]
            omega
          · exact (ih _ _ r hr).imp (fun h => by omega) id

/-- The blocks of the handlers are no larger than the handlers. -/
theorem sizeOf_handlerLinks (entry : String) (handlers : List (Handler Stmt)) (b : Builder) :
    ∀ l ∈ (handlerLinks entry handlers b).1, sizeOf l.block.stmts ≤ sizeOf handlers := by
  induction handlers generalizing b with
  | nil => simp [handlerLinks]
  | cons h rest ih =>
      obtain ⟨label, line, body⟩ := h
      intro l hl
      simp only [List.cons.sizeOf_spec, Handler.mk.sizeOf_spec]
      rcases List.mem_cons.mp hl with rfl | hl
      · dsimp only
        omega
      · have := ih _ l hl
        omega

/-- The blocks of the members are no larger than the members. -/
theorem sizeOf_memberBlocks (members : List Stmt) (b : Builder) :
    ∀ r ∈ memberBlocks members b, sizeOf r.stmts ≤ sizeOf members := by
  induction members generalizing b with
  | nil => simp [memberBlocks]
  | cons s rest ih =>
      intro r hr
      simp only [List.cons.sizeOf_spec]
      rcases List.mem_cons.mp hr with rfl | hr
      · simp only [List.cons.sizeOf_spec, List.nil.sizeOf_spec]
        cases rest <;> simp only [List.cons.sizeOf_spec, List.nil.sizeOf_spec] <;> omega
      · have := ih _ r hr
        omega

/-- The blocks of a statement are smaller than the statement. -/
theorem Visit.sizeOf_blocks (v : Visit) : ∀ r ∈ v.blocks, sizeOf r.stmts < sizeOf v.stmt := by
  obtain ⟨s, es, b⟩ := v
  intro r hr
  cases s with
  | branch line text cond body orelse =>
      exact sizeOf_branchChain line text cond body orelse es b r hr
  | switch line text subject cases =>
      have hdefault := sizeOf_defaultBody cases
      simp only [Stmt.switch.sizeOf_spec]
      rcases sizeOf_caseChain _ _ _ _ r hr with hr | hr
      · omega
      · rw [hr]
        omega
  | loop line text body orelse =>
      simp only [Stmt.loop.sizeOf_spec]
      rcases List.mem_pair.mp hr with rfl | rfl
      · simp only [loopFrom]
        omega
      · dsimp only
        omega
  | countedLoop line text init cond update body =>
      simp only [Stmt.countedLoop.sizeOf_spec]
      obtain rfl := List.mem_singleton.mp hr
      simp only [loopFrom]
      omega
  | guarded line text body orelse handlers cleanup =>
      simp only [Stmt.guarded.sizeOf_spec]
      rcases List.mem_cons.mp hr with rfl | hr
      · simp only [guardFrom]
        omega
      rcases List.mem_cons.mp hr with rfl | hr
      · simp only [guardFrom]
        omega
      rcases List.mem_append.mp hr with hr | hr
      · obtain ⟨l, hl, rfl⟩ := List.mem_map.mp hr
        have := sizeOf_handlerLinks _ _ _ l hl
        omega
      · cases cleanup with
        | none => exact absurd hr (by simp [Guard.cleanup?])
        | some c =>
            obtain ⟨cline, cbody⟩ := c
            obtain rfl := List.mem_singleton.mp hr
            simp only [Option.some.sizeOf_spec, Cleanup.mk.sizeOf_spec, cleanupLink]
            omega
  | resource line text body close =>
      obtain rfl := List.mem_singleton.mp hr
      simp only [Stmt.resource.sizeOf_spec]
      omega
  | function line text body =>
      obtain rfl := List.mem_singleton.mp hr
      simp only [Stmt.function.sizeOf_spec]
      omega
  | container line text members =>
      have := sizeOf_memberBlocks _ _ r hr
      simp only [Stmt.container.sizeOf_spec]
      omega
  | block line body =>
      obtain rfl := List.mem_singleton.mp hr
      simp only [Stmt.block.sizeOf_spec]
      omega
  | simple | terminal | skip => exact absurd hr List.not_mem_nil

/-- What holds of the empty block, and of a block if it holds of the blocks of its first statement
and of the rest, holds of every block. -/
theorem Block.induction {P : Block → Prop} (nil : ∀ es b, P ⟨[], es, b⟩)
    (cons : ∀ s rest es b, (∀ r ∈ (⟨s, es, b⟩ : Visit).blocks, P r) →
      P ⟨rest, (⟨s, es, b⟩ : Visit).ends, (⟨s, es, b⟩ : Visit).after⟩ → P ⟨s :: rest, es, b⟩)
    (r : Block) : P r := by
  obtain ⟨stmts, es, b⟩ := r
  match stmts with
  | [] => exact nil es b
  | s :: rest =>
      refine cons s rest es b (fun r hr => ?_) (Block.induction nil cons _)
      have : sizeOf r.stmts < sizeOf s := Visit.sizeOf_blocks ⟨s, es, b⟩ r hr
      exact Block.induction nil cons r
termination_by sizeOf r.stmts
decreasing_by
  all_goals
    simp only [List.cons.sizeOf_spec]
    omega

end Flowchart
