import Flowchart.Proofs.Drawing.Emitted

/-!
# How exits pass through a drawing

A statement does one of three things with the exits that it is reached from (`Passage`): it hands them
on, it leaves none, or it leads all of them to one new node and goes on from a single new node. Which of
them it is can be told from the statement alone (`Stmt.passage`).

Nothing is assumed here of the builder or of the exits. Ids that are drawn may be there already, and
exits may belong to nodes that are not there, so an edge is known to be new only by the nodes at its ends
(`Builder.Within`). A piece of a drawing passes its exits in one of the three ways (`Passes`), pieces are
put together with `Passes.seq`, and the induction goes over the blocks that a statement holds.

## Edges of a piece

A statement may be reached from exits of nodes drawn long before, and nothing rules out that one of
their ids is drawn again. So what is asked of an edge is not where it leads in the graph but when its
ends were drawn: `Fresh` is the id of a node added between two builders, and `Known` an id that is fresh
or belongs to an exit. A piece adds edges only from known ids to fresh ones (`Within`), and so do pieces
in a row (`Within.trans`).

## Passages in a row

The passage of a block is a function of the passages of its statements (`Passage.andThen`): the last
statement that does not hand its exits on decides. What is drawn behind a statement that leaves no exits
is drawn all the same, and control can be said to go on from it.

## Main results

* `Passes.seq`: pieces in a row pass their exits as their passages in a row do.
* `passes_of_blocks`: a statement passes its exits as `Stmt.passage` says, if its blocks do.
* `passes_lowerBlock`: so does every block, from any builder and for any exits.
-/

namespace Flowchart

open Builder

/-! ### Passages -/

/-- What becomes of the exits that statements are reached from. -/
inductive Passage where
  /-- They are handed on, and nothing is drawn that they lead to. -/
  | through
  /-- None is left. -/
  | ended
  /-- They lead to a node, and control goes on from a new node. -/
  | onward
  deriving DecidableEq, Repr

namespace Passage

/-- Whether control goes on where it comes to. -/
def goesOn : Passage → Bool
  | .ended => false
  | .through | .onward => true

/-- One passage after another. -/
def andThen : Passage → Passage → Passage
  | p, .through => p
  | _, .ended => .ended
  | _, .onward => .onward

/-- The passage of exits that are collected, if there are any. -/
def onwardIf (c : Bool) : Passage := if c then .onward else .ended

end Passage

mutual
/-- The passage of a statement. -/
def Stmt.passage : Stmt → Passage
  | .simple _ _ | .countedLoop _ _ _ _ _ _ | .function _ _ _ => .onward
  | .branch _ _ _ body orelse => .onwardIf ((passage body).goesOn || (passage orelse).goesOn)
  | .loop _ _ _ orelse => Passage.onward.andThen (passage orelse)
  | .guarded _ _ body orelse handlers cleanup =>
    if ((passage body).andThen (passage orelse)).goesOn || handlersGoOn handlers then
      Passage.onward.andThen (cleanupPassage cleanup)
    else .ended
  | .switch _ _ _ cases =>
    if cases.all (·.isDefault) then defaultPassage cases
    else .onwardIf (casesGoOn cases || (defaultPassage cases).goesOn)
  | .resource _ _ body _ => .onwardIf (passage body).goesOn
  | .terminal _ _ => .ended
  | .container _ _ _ | .skip => .through
  | .block _ body => passage body

/-- The passage of statements one after another. -/
def passage : List Stmt → Passage
  | [] => .through
  | s :: rest => s.passage.andThen (passage rest)

/-- Whether control goes on from some handler. -/
def handlersGoOn : List (Handler Stmt) → Bool
  | [] => false
  | ⟨_, _, body⟩ :: rest => (passage body).goesOn || handlersGoOn rest

/-- The passage of a cleanup. -/
def cleanupPassage : Option (Cleanup Stmt) → Passage
  | none => .through
  | some ⟨_, body⟩ => passage body

/-- Whether control goes on from some case of a switch, defaults left out. -/
def casesGoOn : List (Case Stmt) → Bool
  | [] => false
  | ⟨_, _, isDefault, body⟩ :: rest => !isDefault && (passage body).goesOn || casesGoOn rest

/-- The passage of the first default of a switch. -/
def defaultPassage : List (Case Stmt) → Passage
  | [] => .through
  | ⟨_, _, isDefault, body⟩ :: rest => if isDefault then passage body else defaultPassage rest
end

namespace Passage

/-- A passage on a condition goes on if the condition holds. -/
theorem goesOn_onwardIf (c : Bool) : (onwardIf c).goesOn = c := by
  cases c <;> rfl

/-- After a new node the exits are not those that came in. -/
theorem onward_andThen_ne_through (p : Passage) : Passage.onward.andThen p ≠ .through := by
  cases p <;> decide

end Passage

/-- A block of one statement passes its exits as the statement does. -/
theorem passage_singleton (s : Stmt) : passage [s] = s.passage := rfl

/-- The default case passes exits as its body does. -/
theorem defaultPassage_eq (cases : List (Case Stmt)) :
    defaultPassage cases = passage (defaultBody cases) := by
  induction cases with
  | nil => rfl
  | cons c rest ih =>
      obtain ⟨label, line, isDefault, body⟩ := c
      cases isDefault with
      | true => rfl
      | false => exact ih

mutual
/-- Control goes on from a branch if it goes on from some block of its chain. -/
theorem branchChain_goesOn (s : Stmt) (es : List Exit) (b : Builder) :
    (∀ r ∈ (branchChain s es b).blocks, (passage r.stmts).goesOn = false) ↔
      s.passage.goesOn = false := by
  cases s with
  | branch line text cond body orelse =>
      have hrest := elseChain_goesOn orelse [Exit.no (b.freshId line)]
        (yesBlock es b (orText cond text) line body).after
      rw [branchChain, Chain.cons_blocks, List.forall_mem_cons, hrest, Stmt.passage,
        Passage.goesOn_onwardIf, Bool.or_eq_false_iff]
      rfl
  | _ => simp [branchChain, Chain.blocks, passage_singleton]

/-- None of the blocks of an else part goes on exactly if the else part does not. -/
theorem elseChain_goesOn (stmts : List Stmt) (es : List Exit) (b : Builder) :
    (∀ r ∈ (elseChain stmts es b).blocks, (passage r.stmts).goesOn = false) ↔
      (passage stmts).goesOn = false := by
  match stmts with
  | [] => simp [elseChain, Chain.blocks]
  | [s] => rw [elseChain, branchChain_goesOn, passage_singleton]
  | s :: s' :: rest => simp [elseChain, Chain.blocks]
end

/-- Control goes on from a switch if it goes on from some block of its chain. -/
theorem caseChain_goesOn (default : List Stmt) (cases : List (Case Stmt)) (es : List Exit)
    (b : Builder) :
    (∀ r ∈ (caseChain default cases es b).blocks, (passage r.stmts).goesOn = false) ↔
      casesGoOn cases = false ∧ (passage default).goesOn = false := by
  induction cases generalizing es b with
  | nil => simp [caseChain, Chain.blocks, casesGoOn]
  | cons c rest ih =>
      obtain ⟨label, line, isDefault, body⟩ := c
      cases isDefault with
      | true => simpa [caseChain, casesGoOn] using ih es b
      | false =>
          have hrest := ih [Exit.no (b.freshId line)] (yesBlock es b label line body).after
          rw [caseChain, if_neg (by simp), Chain.cons_blocks, List.forall_mem_cons, hrest, casesGoOn,
            Bool.not_false, Bool.true_and, Bool.or_eq_false_iff, and_assoc]
          rfl

/-! ### Drawing on -/

namespace Builder

/-- An id of a node that is drawn between two builders. -/
def Fresh (b b' : Builder) (id : String) : Prop := ∃ n ∈ b.added b', n.id = id

/-- An id of a node that is drawn between two builders, or of an exit from before. -/
def Known (es : List Exit) (b b' : Builder) (id : String) : Prop :=
  b.Fresh b' id ∨ ∃ x ∈ es, x.node = id

/-- The edges of `b'` that come after those of `b`. -/
def addedEdges (b b' : Builder) : List Edge := b'.edges.drop b.edges.length

/-- Drawing that has been reached from the exits `es` in `b` goes on from `b₁` to `b'`: each edge that is
added ends in a new node and starts in a new node or in an exit. -/
structure Within (es : List Exit) (b b₁ b' : Builder) : Prop where
  before : Extends b b₁
  after : Extends b₁ b'
  target : ∀ d ∈ b₁.addedEdges b', b.Fresh b' d.target
  source : ∀ d ∈ b₁.addedEdges b', Known es b b' d.source

/-- The exits lead to one new node. An exit that has no id leads nowhere. -/
def Begun (es : List Exit) (b b' : Builder) : Prop :=
  ∃ n ∈ b.added b', ∀ x ∈ es, x.node ≠ "" → x.edgeTo b n.id ∈ b'.edges

variable {es es' : List Exit} {b b₁ b₂ b' : Builder} {id : String}

/-- The edges afterwards are those before and those that were added. -/
theorem edges_eq_append_addedEdges (h : b.edges <+: b'.edges) :
    b'.edges = b.edges ++ b.addedEdges b' := by
  obtain ⟨rest, hrest⟩ := h
  rw [addedEdges, ← hrest, List.drop_left]

/-- What is added in two steps is what is added in the first and in the second. -/
theorem addedEdges_append (h₁ : b.edges <+: b₁.edges) (h₂ : b₁.edges <+: b'.edges) :
    b.addedEdges b' = b.addedEdges b₁ ++ b₁.addedEdges b' := by
  have hedges := edges_eq_append_addedEdges (h₁.trans h₂)
  rw [edges_eq_append_addedEdges h₂, edges_eq_append_addedEdges h₁, List.append_assoc] at hedges
  exact (List.append_cancel_left hedges).symm

/-- A node that is new in a step is new in every longer stretch that ends later. -/
theorem Fresh.mono (h : b.Fresh b₁ id) (h₁ : Extends b b₁) (h₂ : Extends b₁ b') :
    b.Fresh b' id := by
  obtain ⟨n, hn, hid⟩ := h
  refine ⟨n, ?_, hid⟩
  rw [added_append h₁.nodes_prefix h₂.nodes_prefix]
  exact List.mem_append_left _ hn

/-- A node that is new in a later step is new in the whole stretch. -/
theorem Fresh.later (h : b₁.Fresh b' id) (h₁ : Extends b b₁) (h₂ : Extends b₁ b') :
    b.Fresh b' id := by
  obtain ⟨n, hn, hid⟩ := h
  refine ⟨n, ?_, hid⟩
  rw [added_append h₁.nodes_prefix h₂.nodes_prefix]
  exact List.mem_append_right _ hn

/-- What is known of a node stays known later on. -/
theorem Known.mono (h : Known es b b₁ id) (h₁ : Extends b b₁) (h₂ : Extends b₁ b') :
    Known es b b' id :=
  h.imp (fun h => h.mono h₁ h₂) fun h => h

/-- What is known of a piece is known where its exits are. -/
theorem Known.later (h : Known es' b₁ b' id) (hes : ∀ x ∈ es', Known es b b₁ x.node)
    (h₁ : Extends b b₁) (h₂ : Extends b₁ b') : Known es b b' id := by
  rcases h with h | ⟨x, hx, rfl⟩
  · exact Or.inl (h.later h₁ h₂)
  · exact (hes x hx).mono h₁ h₂

/-- Exits that a piece begins with are those of all that is drawn if they are handed on to it. -/
theorem Begun.later (h : Begun es b₁ b') (h₁ : Extends b b₁) (h₂ : Extends b₁ b') :
    Begun es b b' := by
  obtain ⟨n, hn, hlinked⟩ := h
  refine ⟨n, ?_, fun x hx hid => ?_⟩
  · rw [added_append h₁.nodes_prefix h₂.nodes_prefix]
    exact List.mem_append_right _ hn
  · have hmem := hlinked x hx hid
    rwa [Exit.edgeTo, h₁.edgeLabel_eq] at hmem

/-- A drawing that has begun has begun later on too. -/
theorem Begun.mono (h : Begun es b b₁) (h₁ : Extends b b₁) (h₂ : Extends b₁ b') : Begun es b b' := by
  obtain ⟨n, hn, hlinked⟩ := h
  refine ⟨n, ?_, fun x hx hid => h₂.edges_prefix.subset (hlinked x hx hid)⟩
  rw [added_append h₁.nodes_prefix h₂.nodes_prefix]
  exact List.mem_append_left _ hn

namespace Within

/-- Nodes are added, subgraphs are opened and closed. -/
theorem quiet (h : Extends b b₁) (h' : Extends b₁ b') (hedges : b'.edges = b₁.edges) :
    Within es b b₁ b' := by
  have hnone : b₁.addedEdges b' = [] := by
    rw [addedEdges, hedges, List.drop_length]
  exact ⟨h, h', by simp [hnone], by simp [hnone]⟩

/-- Where nothing is drawn, nothing leaves the bounds. -/
theorem refl (h : Extends b b₁) : Within es b b₁ b₁ := quiet h (Extends.refl b₁) rfl

/-- Two steps within the same bounds. -/
theorem trans (h : Within es b b₁ b₂) (h' : Within es b b₂ b') : Within es b b₁ b' := by
  have hadded := addedEdges_append h.after.edges_prefix h'.after.edges_prefix
  refine ⟨h.before, h.after.trans h'.after, ?_, ?_⟩
  · rw [hadded, List.forall_mem_append]
    exact ⟨fun d hd => (h.target d hd).mono h'.before h'.after, h'.target⟩
  · rw [hadded, List.forall_mem_append]
    exact ⟨fun d hd => (h.source d hd).mono h'.before h'.after, h'.source⟩

/-- A piece that is reached from known places. -/
theorem piece (h : Extends b b₁) (hes : ∀ x ∈ es', Known es b b₁ x.node)
    (h' : Within es' b₁ b₁ b') : Within es b b₁ b' :=
  ⟨h, h'.after, fun d hd => (h'.target d hd).later h h'.after,
    fun d hd => (h'.source d hd).later hes h h'.after⟩

/-- An edge from a known node to a new one stays within the bounds. -/
theorem addEdge {source target : String} (h : Extends b b₁) (hs : Known es b b₁ source)
    (ht : b.Fresh b₁ target) (text : Option String) (style : EdgeStyle) :
    Within es b b₁ (b₁.addEdge source target text style) := by
  have h' := Extends.addEdge b₁ source target text style
  have hadded : ∀ d ∈ b₁.addedEdges (b₁.addEdge source target text style),
      d.source = source ∧ d.target = target := by
    intro d hd
    rcases addEdge_edges_eq b₁ source target text style with hedges | ⟨-, hedges⟩
    · rw [addedEdges, hedges, List.drop_length] at hd
      exact absurd hd List.not_mem_nil
    · rw [addedEdges, hedges, List.drop_left, List.mem_singleton] at hd
      rw [hd]
      exact ⟨rfl, rfl⟩
  refine ⟨h, h', fun d hd => ?_, fun d hd => ?_⟩
  · rw [(hadded d hd).2]
    exact ht.mono h h'
  · rw [(hadded d hd).1]
    exact hs.mono h h'

/-- Edges from known nodes to a new one stay within the bounds. -/
theorem linkAll {target : String} (h : Extends b b₁) (hes : ∀ x ∈ es', Known es b b₁ x.node)
    (ht : b.Fresh b₁ target) : Within es b b₁ (b₁.linkAll es' target) := by
  induction es' generalizing b₁ with
  | nil => exact refl h
  | cons x es' ih =>
      obtain ⟨hx, hes⟩ := List.forall_mem_cons.mp hes
      have hedge := addEdge h hx ht x.label x.style
      have h' := h.trans hedge.after
      exact hedge.trans (ih h' (fun y hy => (hes y hy).mono h hedge.after) (ht.mono h hedge.after))

/-- Edges from known nodes back to a new head stay within the bounds. -/
theorem backAll {head : String} (h : Extends b b₁) (hes : ∀ x ∈ es', Known es b b₁ x.node)
    (ht : b.Fresh b₁ head) : Within es b b₁ (b₁.backAll es' head) := by
  induction es' generalizing b₁ with
  | nil => exact refl h
  | cons x es' ih =>
      obtain ⟨hx, hes⟩ := List.forall_mem_cons.mp hes
      rw [backAll_cons]
      split_ifs
      · exact ih h hes ht
      · have hedge := addEdge h hx ht (some "Repeat") x.style
        exact hedge.trans (ih (h.trans hedge.after) (fun y hy => (hes y hy).mono h hedge.after)
          (ht.mono h hedge.after))

end Within

/-- A new node adds nothing but itself. -/
theorem extends_addNode (b : Builder) (shape : Shape) (text : String) (line : Option Int) :
    Extends b (b.addNode shape text line).2 :=
  ⟨List.prefix_append _ _, List.prefix_rfl, rfl, rfl, Nat.le_succ _⟩

/-- A merge point adds nothing but itself. -/
theorem extends_addMerge (b : Builder) : Extends b b.addMerge.2 :=
  ⟨List.prefix_append _ _, List.prefix_rfl, rfl, rfl, Nat.le_succ _⟩

/-- The node that is drawn in a step is among those that are added. -/
theorem mem_added_of_nodes_eq {n : Node} (h : Extends b b₁) (h' : Extends b₁ b')
    (hnodes : b'.nodes = b₁.nodes ++ [n]) : n ∈ b.added b' := by
  rw [added_append h.nodes_prefix h'.nodes_prefix]
  refine List.mem_append_right _ ?_
  rw [added, hnodes, List.drop_left]
  exact List.mem_singleton_self n

/-- A new node to which known exits are linked. -/
theorem Within.node {n : Node} (h : Extends b b₁) (h' : Extends b₁ b₂)
    (hnodes : b₂.nodes = b₁.nodes ++ [n]) (hedges : b₂.edges = b₁.edges)
    (hes : ∀ x ∈ es', Known es b b₁ x.node) : Within es b b₁ (b₂.linkAll es' n.id) :=
  (Within.quiet h h' hedges).trans (Within.linkAll (h.trans h')
    (fun x hx => (hes x hx).mono h h') ⟨n, mem_added_of_nodes_eq h h' hnodes, rfl⟩)

/-- A node that known exits lead to stays within the bounds. -/
theorem Within.place (h : Extends b b₁) (hes : ∀ x ∈ es', Known es b b₁ x.node) (shape : Shape)
    (text : String) (line : Option Int) : Within es b b₁ (b₁.place es' shape text line) :=
  .node (n := b₁.freshNode shape text line) h (extends_addNode b₁ shape text line) rfl rfl hes

/-- A new node with an edge from a known place, and its exit. -/
theorem Within.spur {source : String} (h : Extends b b₁) (hs : Known es b b₁ source) (shape : Shape)
    (text : String) (line : Option Int) (label : Option String) (style : EdgeStyle) :
    Within es b b₁ ((b₁.addNode shape text line).2.addEdge source (b₁.freshId line) label style) ∧
      ∀ x ∈ [Exit.plain (b₁.freshId line)], Known es b
        ((b₁.addNode shape text line).2.addEdge source (b₁.freshId line) label style) x.node := by
  have hadd := extends_addNode b₁ shape text line
  have hfresh : b.Fresh (b₁.addNode shape text line).2 (b₁.freshId line) :=
    ⟨b₁.freshNode shape text line, mem_added_of_nodes_eq h hadd rfl, rfl⟩
  have hedge := addEdge (h.trans hadd) (hs.mono h hadd) hfresh label style
  refine ⟨(quiet h hadd rfl).trans hedge, List.forall_mem_singleton.mpr (Or.inl ?_)⟩
  exact hfresh.mono hedge.before hedge.after

/-- Known exits are collected in a merge point, if there are any. -/
theorem Within.join (h : Extends b b₁) (hes : ∀ x ∈ es', Known es b b₁ x.node) :
    Within es b b₁ (b₁.join es').2 := by
  by_cases hnil : es' = []
  · rw [hnil, join_nil]
    exact refl h
  · rw [join_of_ne_nil b₁ hnil]
    exact .node (n := b₁.mergeNode) h (extends_addMerge b₁) rfl rfl hes

/-- Edges to a node add nothing but themselves. -/
theorem extends_linkAll (b : Builder) (es : List Exit) (t : String) : Extends b (b.linkAll es t) := by
  induction es generalizing b with
  | nil => exact Extends.refl b
  | cons x es ih => exact (Extends.addEdge b x.node t x.label x.style).trans (ih _)

/-- Exits that have ids lead to the node they are linked to. -/
theorem edgeTo_mem_linkAll {t : String} (ht : t ≠ "") {x : Exit} (hx : x ∈ es) (hid : x.node ≠ "") :
    x.edgeTo b t ∈ (b.linkAll es t).edges := by
  induction es generalizing b with
  | nil => exact absurd hx List.not_mem_nil
  | cons y es ih =>
      have hadd := Extends.addEdge b y.node t y.label y.style
      rw [linkAll_cons]
      rcases List.mem_cons.mp hx with rfl | hx
      · have hrest := extends_linkAll (b.addEdge x.node t x.label x.style) es t
        refine hrest.edges_prefix.subset ?_
        rw [mem_addEdge_edges (by simpa using hid) (by simpa using ht)]
        exact Or.inr rfl
      · have hmem := ih (b := b.addEdge y.node t y.label y.style) hx
        rwa [Exit.edgeTo, hadd.edgeLabel_eq] at hmem

/-- Placing a node adds just that node. -/
theorem place_nodes (es : List Exit) (b : Builder) (shape : Shape) (text : String)
    (line : Option Int) :
    (b.place es shape text line).nodes = b.nodes ++ [b.freshNode shape text line] :=
  linkAll_nodes ..

/-- Exits begin where they are led to a new node. -/
theorem begun_place (es : List Exit) (b : Builder) (shape : Shape) (text : String)
    (line : Option Int) : Begun es b (b.place es shape text line) := by
  have hadd := extends_addNode b shape text line
  have hid : b.freshId line ≠ "" := by
    obtain ⟨first, last, middle, hlist, -⟩ := isId_idOf IdFamily.proper_line line b.next
    intro hempty
    rw [freshId, ← String.toList_inj, hlist] at hempty
    exact absurd hempty (by simp)
  refine ⟨b.freshNode shape text line, ?_, fun x hx hnode => ?_⟩
  · exact mem_added_of_nodes_eq (Extends.refl b) (hadd.trans (extends_linkAll ..)) (place_nodes ..)
  · have hmem := edgeTo_mem_linkAll (b := (b.addNode shape text line).2) hid hx hnode
    rwa [Exit.edgeTo, hadd.edgeLabel_eq] at hmem

end Builder

/-! ### Pieces -/

/-- What a passage leaves of the exits `es`. -/
def Passage.Leaves (es : List Exit) (b : Builder) (e : List Exit) (b' : Builder) : Passage → Prop
  | .through => e = es
  | .ended => e = []
  | .onward => ∃ n ∈ b.added b', e = [Exit.plain n.id]

/-- A piece of a drawing passes the exits `es` in `b` and goes on at the exits `e` in `b'`. -/
structure Passes (p : Passage) (es : List Exit) (b : Builder) (e : List Exit) (b' : Builder) :
    Prop where
  within : Within es b b b'
  leaves : p.Leaves es b e b'
  begun : p ≠ .through → Begun es b b'

namespace Passes

variable {p q : Passage} {es e e' : List Exit} {b b₁ b' : Builder}

/-- Where nothing is drawn, the exits are handed on. -/
theorem refl (es : List Exit) (b : Builder) : Passes .through es b es b :=
  ⟨.refl (.refl b), rfl, fun h => absurd rfl h⟩

/-- The exits of a piece are known. -/
theorem known (h : Passes p es b e b') : ∀ x ∈ e, Known es b b' x.node := by
  intro x hx
  have hleaves := h.leaves
  cases p with
  | through =>
      obtain rfl : e = es := hleaves
      exact Or.inr ⟨x, hx, rfl⟩
  | ended =>
      obtain rfl : e = [] := hleaves
      exact absurd hx List.not_mem_nil
  | onward =>
      obtain ⟨n, hn, rfl⟩ := hleaves
      rw [List.mem_singleton.mp hx]
      exact Or.inl ⟨n, hn, rfl⟩

/-- A single new exit belongs to a new node. -/
theorem fresh {d : String} (h : Passes .onward es b [Exit.plain d] b') : b.Fresh b' d := by
  obtain ⟨n, hn, he⟩ := h.leaves
  exact ⟨n, hn, congrArg Exit.node (List.cons.inj he).1.symm⟩

/-- A piece that is reached leaves no exits if control does not go on. -/
theorem ends_eq_nil_iff (h : Passes p es b e b') (hes : es ≠ []) : e = [] ↔ p.goesOn = false := by
  have hleaves := h.leaves
  cases p with
  | through =>
      obtain rfl : e = es := hleaves
      exact iff_of_false hes nofun
  | ended => exact iff_of_true hleaves rfl
  | onward =>
      obtain ⟨n, hn, rfl⟩ := hleaves
      exact iff_of_false nofun nofun

/-- Drawing on after a piece leaves it as it is. -/
theorem extend (h : Passes p es b e b₁) (h' : Within es b b₁ b') : Passes p es b e b' := by
  refine ⟨h.within.trans h', ?_, fun hp => (h.begun hp).mono h'.before h'.after⟩
  have hleaves := h.leaves
  cases p with
  | through => exact hleaves
  | ended => exact hleaves
  | onward =>
      obtain ⟨n, hn, he⟩ := hleaves
      refine ⟨n, ?_, he⟩
      rw [added_append h'.before.nodes_prefix h'.after.nodes_prefix]
      exact List.mem_append_left _ hn

/-- What follows a piece is drawn from its exits. -/
theorem within_seq (h : Passes p es b e b₁) (h' : Passes q e b₁ e' b') : Within es b b₁ b' :=
  .piece h.within.after h.known h'.within

/-- One piece after another. -/
theorem seq (h : Passes p es b e b₁) (h' : Passes q e b₁ e' b') :
    Passes (p.andThen q) es b e' b' := by
  have hwithin := h.within_seq h'
  have hfirst := h.extend hwithin
  have hbegun : q ≠ .through → Begun es b b' := by
    intro hq
    by_cases hp : p = .through
    · subst hp
      obtain rfl : e = es := h.leaves
      exact (h'.begun hq).later h.within.after h'.within.after
    · exact hfirst.begun hp
  have hleaves' := h'.leaves
  cases q with
  | through =>
      obtain rfl : e' = e := hleaves'
      exact hfirst
  | ended => exact ⟨hfirst.within, hleaves', fun _ => hbegun (by decide)⟩
  | onward =>
      obtain ⟨n, hn, he'⟩ := hleaves'
      refine ⟨hfirst.within, ⟨n, ?_, he'⟩, fun _ => hbegun (by decide)⟩
      rw [added_append h.within.after.nodes_prefix h'.within.after.nodes_prefix]
      exact List.mem_append_right _ hn

/-- The exits of a piece that draws something are given up. -/
theorem cut (h : Passes p es b e b') (hp : p ≠ .through) : Passes .ended es b [] b' :=
  ⟨h.within, rfl, fun _ => h.begun hp⟩

/-- A node that the exits lead to. -/
theorem place (es : List Exit) (b : Builder) (shape : Shape) (text : String) (line : Option Int) :
    Passes .onward es b [Exit.plain (b.freshId line)] (b.place es shape text line) := by
  have hwithin : Within es b b (b.place es shape text line) :=
    .place (Extends.refl b) (fun x hx => Or.inr ⟨x, hx, rfl⟩) shape text line
  refine ⟨hwithin, ⟨b.freshNode shape text line, ?_, rfl⟩, fun _ => begun_place es b shape text line⟩
  exact mem_added_of_nodes_eq (Extends.refl b) hwithin.after (place_nodes ..)

/-- Known exits are collected, if there are any. -/
theorem collect {goes : Bool} (h : Passes p es b e b₁) (hp : p ≠ .through)
    (hes : ∀ x ∈ e', Known es b b₁ x.node) (hgoes : e' = [] ↔ goes = false) :
    Passes (.onwardIf goes) es b (b₁.join e').1 (b₁.join e').2 := by
  cases goes with
  | false =>
      obtain rfl : e' = [] := hgoes.mpr rfl
      exact h.cut hp
  | true =>
      have hne : e' ≠ [] := fun hnil => nomatch hgoes.mp hnil
      have hmerge := Within.join h.within.after hes
      have hall := (h.cut hp).extend hmerge
      refine ⟨hall.within, ⟨b₁.mergeNode, ?_, ?_⟩, fun _ => hall.begun (by decide)⟩
      · exact mem_added_of_nodes_eq h.within.after hmerge.after (join_nodes_of_ne_nil b₁ hne)
      · rw [join_of_ne_nil b₁ hne]
        rfl

end Passes

/-- The block passes its exits as its statements do. -/
def Block.Passes (r : Block) : Prop :=
  Flowchart.Passes (passage r.stmts) r.exits r.before r.ends r.after

/-! ### Statements -/

section Statements

variable {es : List Exit} {b b₁ : Builder}

/-- The blocks of a chain are drawn one after another. If they are reached, no exit is left exactly where
control goes on from none of them. -/
theorem Chain.Laid.passes {c : Chain} (h : c.Laid es b) (hr : ∀ r ∈ c.blocks, r.Passes) :
    Within es b b c.last.after ∧ (∀ x ∈ c.ends, Known es b c.last.after x.node) ∧
      (es ≠ [] ∨ c.links ≠ [] →
        (c.ends = [] ↔ ∀ r ∈ c.blocks, (passage r.stmts).goesOn = false)) ∧
      (c.links ≠ [] → ∃ d, Passes .onward es b [Exit.plain d] c.last.after) := by
  induction h with
  | last r =>
      have hlast : r.Passes := hr r (List.mem_singleton_self r)
      refine ⟨hlast.within, hlast.known, fun hes => ?_, fun hlinks => absurd rfl hlinks⟩
      have hnil := hlast.ends_eq_nil_iff (hes.resolve_right fun hlinks => hlinks rfl)
      simpa [Chain.ends, Chain.blocks] using hnil
  | @cons es b text line body c hlaid ih =>
      rw [Chain.cons_blocks, List.forall_mem_cons] at hr
      obtain ⟨hyes, hr⟩ := hr
      obtain ⟨hrest, hknown, hnil, -⟩ := ih hr
      have hplace := Passes.place es b .decision text line
      have hdecision : ∀ x ∈ (yesBlock es b text line body).exits,
          Known es b (b.place es .decision text line) x.node :=
        List.forall_mem_singleton.mpr (Or.inl hplace.fresh)
      have hfirst : Within es b (b.place es .decision text line)
          (yesBlock es b text line body).after :=
        .piece hplace.within.after hdecision hyes.within
      have hno : ∀ x ∈ [Exit.no (b.freshId line)],
          Known es b (yesBlock es b text line body).after x.node :=
        List.forall_mem_singleton.mpr (Or.inl (hplace.extend hfirst).fresh)
      have hlater : Within es b (yesBlock es b text line body).after c.last.after :=
        .piece (hfirst.before.trans hfirst.after) hno hrest
      have hall := (hplace.extend hfirst).extend hlater
      refine ⟨hall.within, ?_, fun _ => ?_, fun _ => ⟨_, hall⟩⟩
      · rw [Chain.cons_ends, List.forall_mem_append]
        refine ⟨fun x hx => ?_, fun x hx => ?_⟩
        · exact ((hyes.known x hx).later hdecision hfirst.before hfirst.after).mono
            hlater.before hlater.after
        · exact (hknown x hx).later hno hlater.before hlater.after
      · rw [Chain.cons_ends, Chain.cons_blocks, List.append_eq_nil_iff, List.forall_mem_cons,
          hyes.ends_eq_nil_iff (List.cons_ne_nil _ _), hnil (Or.inl (List.cons_ne_nil _ _))]

/-- The handlers of a guarded statement are drawn one after another from its entry. No exit is left
exactly where control goes on from none of them. -/
theorem within_handlerLinks {entry : String} (handlers : List (Handler Stmt)) (h : Extends b b₁)
    (hentry : Known es b b₁ entry)
    (hr : ∀ l ∈ (handlerLinks entry handlers b₁).1, l.block.Passes) :
    Within es b b₁ (handlerLinks entry handlers b₁).2 ∧
      (∀ x ∈ (handlerLinks entry handlers b₁).1.flatMap (·.block.ends),
        Known es b (handlerLinks entry handlers b₁).2 x.node) ∧
      ((handlerLinks entry handlers b₁).1.flatMap (·.block.ends) = [] ↔
        handlersGoOn handlers = false) := by
  induction handlers generalizing b₁ with
  | nil => exact ⟨.refl h, fun x hx => absurd hx List.not_mem_nil, iff_of_true rfl rfl⟩
  | cons handler rest ih =>
      obtain ⟨label, line, body⟩ := handler
      obtain ⟨hbody, hr⟩ := List.forall_mem_cons.mp hr
      set r : Block := ⟨body, [Exit.plain (b₁.freshId line)],
        (b₁.addNode .flag label line).2.addEdge entry (b₁.freshId line) (some "Exception") .dashed⟩
      obtain ⟨hnode, hflag⟩ : Within es b b₁ r.before ∧ ∀ x ∈ r.exits, Known es b r.before x.node :=
        Within.spur h hentry .flag label line (some "Exception") .dashed
      have hblock : Within es b b₁ r.after := hnode.trans
        (.piece (h.trans hnode.after) hflag hbody.within)
      obtain ⟨hrest, hknown, hnil⟩ := ih (h.trans hblock.after) (hentry.mono h hblock.after) hr
      refine ⟨hblock.trans hrest, ?_, ?_⟩
      · rw [handlerLinks, List.flatMap_cons, List.forall_mem_append]
        refine ⟨fun x hx => ?_, hknown⟩
        exact ((hbody.known x hx).later hflag (h.trans hnode.after) hbody.within.after).mono
          hrest.before hrest.after
      · have hends : r.ends = [] ↔ (passage body).goesOn = false :=
          hbody.ends_eq_nil_iff (List.cons_ne_nil _ _)
        rw [handlerLinks, List.flatMap_cons, List.append_eq_nil_iff, handlersGoOn,
          Bool.or_eq_false_iff, hnil]
        exact and_congr_left fun _ => hends

/-- The members of a container are drawn within the bounds of the container. -/
theorem within_lowerMembers (members : List Stmt) (h : Extends b b₁)
    (hr : ∀ r ∈ memberBlocks members b₁, r.Passes) : Within es b b₁ (lowerMembers members b₁).2 := by
  induction members generalizing b₁ with
  | nil => exact .refl h
  | cons s rest ih =>
      obtain ⟨hmember, hr⟩ := List.forall_mem_cons.mp hr
      have hfirst : Within es b b₁ (⟨[s], [], b₁⟩ : Block).after :=
        .piece h (fun x hx => absurd hx List.not_mem_nil) hmember.within
      exact hfirst.trans (ih (h.trans hfirst.after) hr)

/-- A loop goes on from its head. -/
theorem passes_loopFrom (es : List Exit) (b : Builder) (line : Option Int) (text : String)
    (body : List Stmt) (update : String) (h : (loopFrom es b line text body update).body.Passes) :
    Passes .onward es b [Exit.plain (loopFrom es b line text body update).head]
      (loopFrom es b line text body update).closed := by
  set l := loopFrom es b line text body update
  have hhead : Passes .onward es b [Exit.plain l.head] l.body.before := Passes.place es b .loop text line
  have hbody : Passes .onward es b [Exit.plain l.head] l.body.after :=
    hhead.extend (hhead.within_seq h)
  have hends := hhead.seq h
  have hupdate : Within es b l.body.after l.after ∧ ∀ x ∈ l.ends, Known es b l.after x.node := by
    rw [Loop.after, Loop.ends]
    split_ifs
    · have hplace := Passes.place l.body.ends l.body.after .process l.update l.line
      exact ⟨hends.within_seq hplace, (hends.seq hplace).known⟩
    · exact ⟨.refl hbody.within.after, hends.known⟩
  have hall := hbody.extend hupdate.1
  exact hall.extend (.backAll hall.within.after hupdate.2 hall.fresh)

/-- The start of a counted loop hands its exits on or leads them to one new node. -/
theorem passes_countedEntry (line : Option Int) (init : String) (es : List Exit) (b : Builder) :
    ∃ p, Passes p es b (countedEntry line init es b).1 (countedEntry line init es b).2 := by
  rw [countedEntry]
  split_ifs
  · exact ⟨.through, .refl es b⟩
  · exact ⟨.onward, .place es b .process init line⟩

/-- The exits of a guarded statement before its cleanup. Its entry is a new node. -/
theorem passes_guardFrom {line : Option Int} {text : String} {body orelse : List Stmt}
    {handlers : List (Handler Stmt)}
    (hbody : (guardFrom es b line text body orelse handlers).body.Passes)
    (horelse : (guardFrom es b line text body orelse handlers).orelse.Passes)
    (hr : ∀ l ∈ (guardFrom es b line text body orelse handlers).handlers, l.block.Passes) :
    Passes (.onwardIf (((passage body).andThen (passage orelse)).goesOn || handlersGoOn handlers))
        es b (guardFrom es b line text body orelse handlers).joined.1
        (guardFrom es b line text body orelse handlers).joined.2 ∧
      b.Fresh (guardFrom es b line text body orelse handlers).joined.2
        (guardFrom es b line text body orelse handlers).entry := by
  set g := guardFrom es b line text body orelse handlers
  have hhead : Passes .onward es b [Exit.plain g.entry] g.body.before :=
    Passes.place es b .flag (orText text "Try") line
  have hnormal : Passes ((passage body).andThen (passage orelse)) [Exit.plain g.entry] g.body.before
      g.orelse.ends g.orelse.after := hbody.seq horelse
  have hall := hhead.extend (hhead.within_seq hnormal)
  obtain ⟨hhandlers, hknown, hnil⟩ :=
    within_handlerLinks handlers hall.within.after (Or.inl hall.fresh) hr
  have hexits : ∀ x ∈ g.exits, Known es b g.handled x.node := by
    rw [Guard.exits, List.forall_mem_append]
    refine ⟨fun x hx => ?_, hknown⟩
    exact ((hhead.seq hnormal).known x hx).mono hhandlers.before hhandlers.after
  have hgoes : g.exits = [] ↔
      (((passage body).andThen (passage orelse)).goesOn || handlersGoOn handlers) = false := by
    rw [Guard.exits, List.append_eq_nil_iff, Bool.or_eq_false_iff]
    exact and_congr (hnormal.ends_eq_nil_iff (List.cons_ne_nil _ _)) hnil
  have hhandled := hall.extend hhandlers
  have hjoined := hhandled.collect (by decide) hexits hgoes
  refine ⟨hjoined, hhandled.fresh.mono hhandled.within.after ?_⟩
  exact (Within.join hhandled.within.after hexits).after

/-- The cleanup of a guarded statement is drawn from its exits, or from its entry if it has none. -/
theorem Passes.cleanup {goes : Bool} {e : List Exit} {entry : String} (c : Cleanup Stmt)
    (h : Passes (.onwardIf goes) es b e b₁) (hentry : b.Fresh b₁ entry)
    (hr : (cleanupLink entry e c b₁).block.Passes) :
    Passes (if goes then Passage.onward.andThen (passage c.body) else .ended) es b
      (if e.isEmpty then [] else (cleanupLink entry e c b₁).block.ends)
      (cleanupLink entry e c b₁).block.after := by
  set r := (cleanupLink entry e c b₁).block
  cases goes with
  | false =>
      obtain rfl : e = [] := h.leaves
      obtain ⟨hnode, hstart⟩ : Within es b b₁ r.before ∧ ∀ x ∈ r.exits, Known es b r.before x.node :=
        Within.spur h.within.after (Or.inl hentry) .subroutine "Finally" c.line none .dashed
      exact (h.extend hnode).extend (.piece (h.extend hnode).within.after hstart hr.within)
  | true =>
      obtain ⟨n, hn, rfl⟩ := h.leaves
      exact (h.seq (Passes.place _ b₁ .subroutine "Finally" c.line)).seq hr

/-- A chain with decisions goes on if control goes on from some block of it. -/
theorem Chain.Laid.passes_close {c : Chain} {goes : Bool} (h : c.Laid es b)
    (hr : ∀ r ∈ c.blocks, r.Passes) (hlinks : c.links ≠ [])
    (hgoes : (∀ r ∈ c.blocks, (passage r.stmts).goesOn = false) ↔ goes = false) :
    Passes (.onwardIf goes) es b c.close.1 c.close.2 := by
  obtain ⟨-, hknown, hnil, hall⟩ := h.passes hr
  obtain ⟨d, hall⟩ := hall hlinks
  rw [Chain.close, if_neg (by simpa using hlinks)]
  exact hall.collect (by decide) hknown ((hnil (Or.inr hlinks)).trans hgoes)

end Statements

namespace Visit

variable {v : Visit}

/-- A statement with decisions goes on if control goes on from some block of its chain. -/
theorem passes_chain {c : Chain} {goes : Bool} (hc : v.chain? = some c) (hlinks : c.links ≠ [])
    (hpassage : v.stmt.passage = .onwardIf goes)
    (hgoes : (∀ r ∈ c.blocks, (passage r.stmts).goesOn = false) ↔ goes = false)
    (hr : ∀ r ∈ v.blocks, r.Passes) : Passes v.stmt.passage v.exits v.before v.ends v.after := by
  obtain ⟨hclose, hlaid, hblocks⟩ := close_chain hc
  obtain ⟨hends, hafter⟩ := Prod.mk.inj hclose
  rw [hpassage, hends, hafter]
  exact hlaid.passes_close (hblocks ▸ hr) hlinks hgoes

/-- A switch that is nothing but defaults is what its first default does. -/
theorem passes_switch {line : Option Int} {text subject : String} {cases : List (Case Stmt)}
    {es : List Exit} {b : Builder}
    (hr : ∀ r ∈ (⟨.switch line text subject cases, es, b⟩ : Visit).blocks, r.Passes) :
    Passes (Stmt.switch line text subject cases).passage es b
      (⟨.switch line text subject cases, es, b⟩ : Visit).ends
      (⟨.switch line text subject cases, es, b⟩ : Visit).after := by
  set v : Visit := ⟨.switch line text subject cases, es, b⟩
  set c := caseChain (defaultBody cases) cases es b
  have hc : v.chain? = some c := rfl
  have hlinks : c.links.isEmpty = cases.all (·.isDefault) := caseChain_links_isEmpty ..
  by_cases hall : cases.all (·.isDefault) = true
  · rw [hall, List.isEmpty_iff] at hlinks
    obtain ⟨hblocks, hexits, hbefore, hends, hafter⟩ := chain_of_links_nil hc hlinks
    have hlast : c.last.Passes := hr _ (hblocks ▸ List.mem_singleton_self _)
    rw [Block.Passes, caseChain_last_stmts, hexits, hbefore, ← hends, ← hafter] at hlast
    rwa [Stmt.passage, if_pos hall, defaultPassage_eq]
  · have hpassage : v.stmt.passage =
        .onwardIf (casesGoOn cases || (defaultPassage cases).goesOn) := if_neg hall
    refine passes_chain hc (by simpa [← hlinks] using hall) hpassage ?_ hr
    rw [caseChain_goesOn, Bool.or_eq_false_iff, defaultPassage_eq]

/-- A resource goes on from where it is closed. -/
theorem passes_resource {line : Option Int} {text close : String} {body : List Stmt}
    {es : List Exit} {b : Builder}
    (hr : ∀ r ∈ (⟨.resource line text body close, es, b⟩ : Visit).blocks, r.Passes) :
    Passes (Stmt.resource line text body close).passage es b
      (⟨.resource line text body close, es, b⟩ : Visit).ends
      (⟨.resource line text body close, es, b⟩ : Visit).after := by
  set v : Visit := ⟨.resource line text body close, es, b⟩
  set r : Block := ⟨body, [Exit.plain (b.freshId line)], b.place es .process text line⟩
  have hlower : (v.ends, v.after) = if r.ends.isEmpty then ([], r.after)
      else ([Exit.plain (r.after.freshId line)],
        r.after.place r.ends .process (orText close "Close") line) := lowerStmt_resource ..
  have hbody : r.Passes := hr r (List.mem_singleton_self _)
  have hall := (Passes.place es b .process text line).seq hbody
  have hnil := hbody.ends_eq_nil_iff (List.cons_ne_nil _ _)
  rw [Stmt.passage]
  split_ifs at hlower with hempty
  · obtain ⟨hends, hafter⟩ := Prod.mk.inj hlower
    rw [hends, hafter, hnil.mp (List.isEmpty_iff.mp hempty)]
    exact hall.cut (Passage.onward_andThen_ne_through _)
  · obtain ⟨hends, hafter⟩ := Prod.mk.inj hlower
    have hgoes : (passage body).goesOn = true :=
      (Bool.eq_false_or_eq_true _).resolve_right fun h => hempty (List.isEmpty_iff.mpr (hnil.mpr h))
    rw [hends, hafter, hgoes]
    exact hall.seq (Passes.place r.ends r.after .process (orText close "Close") line)

/-- A guarded statement passes its exits as the parts on its way do. -/
theorem passes_guarded {line : Option Int} {text : String} {body orelse : List Stmt}
    {handlers : List (Handler Stmt)} {cleanup : Option (Cleanup Stmt)} {es : List Exit} {b : Builder}
    (hr : ∀ r ∈ (⟨.guarded line text body orelse handlers cleanup, es, b⟩ : Visit).blocks,
      r.Passes) :
    Passes (Stmt.guarded line text body orelse handlers cleanup).passage es b
      (⟨.guarded line text body orelse handlers cleanup, es, b⟩ : Visit).ends
      (⟨.guarded line text body orelse handlers cleanup, es, b⟩ : Visit).after := by
  set v : Visit := ⟨.guarded line text body orelse handlers cleanup, es, b⟩
  set g := guardFrom es b line text body orelse handlers
  have hg : v.guard? = some g := rfl
  obtain ⟨hjoined, hentry⟩ := passes_guardFrom (hr _ (body_mem_blocks hg))
    (hr _ (orelse_mem_blocks hg)) fun l hl => hr _ (handler_mem_blocks hg hl)
  cases cleanup with
  | none =>
      obtain ⟨hends, hafter⟩ := close_guard_none hg rfl
      rw [hends, hafter]
      exact hjoined
  | some c =>
      have hf : v.finally? = some (cleanupLink g.entry g.joined.1 c g.joined.2) := rfl
      obtain ⟨hends, hafter⟩ := close_guard_some hg hf
      rw [hends, hafter]
      exact hjoined.cleanup c hentry (hr _ (finally_mem_blocks hg hf))

/-- A container draws its members apart and hands its exits on. -/
theorem passes_container {line : Option Int} {text : String} {members : List Stmt} {es : List Exit}
    {b : Builder}
    (hr : ∀ r ∈ (⟨.container line text members, es, b⟩ : Visit).blocks, r.Passes) :
    Passes .through es b (⟨.container line text members, es, b⟩ : Visit).ends
      (⟨.container line text members, es, b⟩ : Visit).after := by
  set v : Visit := ⟨.container line text members, es, b⟩
  set b₁ := (lowerMembers members (b.openSubgraph text line).2).2
  have hlower : (v.ends, v.after) = (es, if b₁.nodes.length = b.nodes.length + 1 then
      (b₁.addNode .process text line).2.closeSubgraph else b₁.closeSubgraph) :=
    lowerStmt_container ..
  obtain ⟨hends, hafter⟩ := Prod.mk.inj hlower
  have hopen : Within es b b (b.openSubgraph text line).2 :=
    .quiet (Extends.refl b) (Extends.openSubgraph b text line) rfl
  have hmembers : Within es b b b₁ := hopen.trans (within_lowerMembers members hopen.after hr)
  have hclose : ∀ b₂, Extends b₁ b₂ → b₂.edges = b₁.edges → Within es b b b₂.closeSubgraph := by
    intro b₂ h hedges
    exact hmembers.trans (.quiet hmembers.after (h.trans (Extends.closeSubgraph b₂)) hedges)
  rw [hends, hafter]
  refine (Passes.refl es b).extend ?_
  split_ifs
  · exact hclose _ (extends_addNode b₁ .process text line) rfl
  · exact hclose _ (Extends.refl b₁) rfl

/-- A statement passes its exits if the blocks that it holds pass theirs. -/
theorem passes_of_blocks (v : Visit) (hr : ∀ r ∈ v.blocks, r.Passes) :
    Passes v.stmt.passage v.exits v.before v.ends v.after := by
  obtain ⟨s, es, b⟩ := v
  cases s with
  | simple line text => exact Passes.place es b .process text line
  | terminal line text => exact (Passes.place es b .terminal text line).cut (by decide)
  | skip => exact Passes.refl es b
  | block line body => exact hr ⟨body, es, b⟩ (List.mem_singleton_self _)
  | function line text body =>
      have hhead := Passes.place es b .stadium text line
      exact hhead.extend (hhead.within_seq (hr _ (List.mem_singleton_self _)))
  | resource => exact passes_resource hr
  | branch line text cond body orelse =>
      have hgoes := branchChain_goesOn (.branch line text cond body orelse) es b
      rw [Stmt.passage, Passage.goesOn_onwardIf] at hgoes
      exact passes_chain rfl (List.cons_ne_nil _ _) rfl hgoes hr
  | switch => exact passes_switch hr
  | loop line text body orelse =>
      have hbody := hr _ List.mem_cons_self
      exact (passes_loopFrom es b line text body "" hbody).seq
        (hr _ (List.mem_cons_of_mem _ List.mem_cons_self))
  | countedLoop line text init cond update body =>
      obtain ⟨p, hentry⟩ := passes_countedEntry line init es b
      have hloop := passes_loopFrom _ _ line (orText cond text) body update
        (hr _ (List.mem_singleton_self _))
      rw [ends, after, lowerStmt_countedLoop]
      exact hentry.seq hloop
  | guarded => exact passes_guarded hr
  | container => exact passes_container hr

end Visit

/-- Every block passes its exits. -/
theorem Block.passes (r : Block) : r.Passes := by
  induction r using Block.induction with
  | nil es b => exact Flowchart.Passes.refl es b
  | cons s rest es b hblocks hrest =>
      exact (Visit.passes_of_blocks ⟨s, es, b⟩ hblocks).seq hrest

/-- Statements that are drawn in any builder and from any exits hand the exits on, or leave none, or
leave one exit of a new node, unlabelled and solid; which of these they do can be told from the
statements. Each new edge ends in a new node and starts in a new node or in an exit. Exits that are not
handed on all lead to one new node, an exit without an id apart, from which no edge is drawn. -/
theorem passes_lowerBlock (stmts : List Stmt) (es : List Exit) (b : Builder) :
    (passage stmts).Leaves es b (lowerBlock stmts es b).1 (lowerBlock stmts es b).2 ∧
    Extends b (lowerBlock stmts es b).2 ∧
    (∀ d ∈ b.addedEdges (lowerBlock stmts es b).2, b.Fresh (lowerBlock stmts es b).2 d.target ∧
      (b.Fresh (lowerBlock stmts es b).2 d.source ∨ ∃ x ∈ es, x.node = d.source)) ∧
    ((lowerBlock stmts es b).1 = es ∧ passage stmts = .through ∨
      ∃ n ∈ b.added (lowerBlock stmts es b).2, ∀ x ∈ es, x.node ≠ "" →
        x.edgeTo b n.id ∈ (lowerBlock stmts es b).2.edges) := by
  have h : Passes (passage stmts) es b (lowerBlock stmts es b).1 (lowerBlock stmts es b).2 :=
    Block.passes ⟨stmts, es, b⟩
  refine ⟨h.leaves, h.within.after, fun d hd => ⟨h.within.target d hd, h.within.source d hd⟩, ?_⟩
  by_cases hp : passage stmts = .through
  · have hleaves := h.leaves
    rw [hp] at hleaves
    exact Or.inl ⟨hleaves, hp⟩
  · exact Or.inr (h.begun hp)

end Flowchart
