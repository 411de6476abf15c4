import Flowchart.Proofs.Drawing.Drawn
import Flowchart.Proofs.Drawing.Emitted

/-!
# The steps of a drawing

`Steps L es b e b'` says that a drawing goes from the exits `es` in `b` to the exits `e` in `b'` by
single steps, and says what a step may do:

* a new node is linked to all exits at hand;
* a dashed edge leads from an exit at hand to a new node;
* exits are led back to another exit at hand, the head of a loop;
* a subgraph is opened, filled from no exit, and closed.

Exits that are at hand may wait while others are gone on from, be dropped, and be used again
(`Steps.among`). The licence `L` says which numbers a node may have that is drawn while no exit is
at hand, and where dashed edges may lead.

What holds of every edge, and of every node, is proved about steps once (`Steps.kept`); that
drawing statements consists of such steps is `Block.steps`.

## Why steps and not fragments

A fragment says where a statement is entered and left. What it draws between is known only through its
blocks, and a fact about all edges would have to be carried through every kind of statement once more.
`Steps` is the other view: it forgets which statement draws what and keeps the single actions. A fact
about edges or nodes is then proved for each action, and `Block.steps` is used for all of them. What the
facts differ in is the licence, a choice of node numbers for which they are proved.

## Main results

* `Steps.kept`: what steps leave of what was there, and what holds of what they add.
* `steps_of_blocks`: a statement is drawn in steps if its blocks are.
* `Block.steps`, `Block.kept`: so is every block.
-/

namespace Flowchart

open Builder

namespace Exit

/-- `x` is an exit of a node of the subgraph that is open. -/
def Stands (b : Builder) (x : Exit) : Prop := ∃ n ∈ b.nodes, x.Leaves n ∧ n.parent = b.scopes.head?

variable {b b' : Builder} {x : Exit}

/-- An exit that stands is pending. -/
theorem Stands.pending (h : x.Stands b) : x.Pending b := by
  obtain ⟨n, hn, hx, -⟩ := h
  exact ⟨n, hn, hx⟩

/-- An exit that stands goes on to do so in the same scope. -/
theorem Stands.mono (hn : b.nodes ⊆ b'.nodes) (hscopes : b'.scopes = b.scopes)
    (h : x.Stands b) : x.Stands b' := by
  obtain ⟨n, hmem, hx, hparent⟩ := h
  exact ⟨n, hn hmem, hx, by rw [hscopes, hparent]⟩

end Exit

/-- What steps are free to do: `root k` if the node with the number `k` may be drawn while no exit is
at hand, `dashed t` if a dashed edge may lead to `t`. -/
structure Licence where
  root : Nat → Prop
  dashed : String → Prop

/-- A drawing goes from the exits `es` in `b` to the exits `e` in `b'`: see the module's
description. -/
inductive Steps (L : Licence) : List Exit → Builder → List Exit → Builder → Prop
  | refl (es : List Exit) (b : Builder) : Steps L es b es b
  | trans {es e e' : List Exit} {b b₁ b' : Builder} :
      Steps L es b e b₁ → Steps L e b₁ e' b' → Steps L es b e' b'
  | among {es a a' e : List Exit} {b b' : Builder} :
      a ⊆ es → e ⊆ es ++ a' → Steps L a b a' b' → Steps L es b e b'
  | link {es e : List Exit} {b b₁ : Builder} {n : Node} :
      b.Adds n b₁ → n.parent = b.scopes.head? → n.shape ≠ .subgraph → (∀ x ∈ e, x.Leaves n) →
      (es = [] → L.root b.next) → Steps L es b e (b₁.linkAll es n.id)
  | spur {x : Exit} {b : Builder} {shape : Shape} {label : Option String} (text : String)
      (line : Option Int) :
      shape ∉ [Shape.terminal, .subgraph, .decision] → label ∈ forwardLabels →
      L.dashed (b.freshId line) → Steps L [x] b [Exit.plain (b.freshId line)]
        ((b.addNode shape text line).2.addEdge x.node (b.freshId line) label .dashed)
  | back (head : String) (es : List Exit) (b : Builder) :
      Steps L (Exit.plain head :: es) b (Exit.plain head :: es) (b.backAll es head)
  | scope {es e : List Exit} {b b₁ : Builder} (text : String) (line : Option Int) :
      Steps L [] (b.openSubgraph text line).2 e b₁ → Steps L es b es b₁.closeSubgraph

/-! ### What steps keep -/

namespace Builder

/-- The edge joins two nodes of one subgraph, leaves neither the end of a function nor a subgraph,
and is dashed only where that is allowed. -/
def Joins (L : Licence) (b : Builder) (d : Edge) : Prop :=
  ∃ m ∈ b.nodes, ∃ n ∈ b.nodes, m.id = d.source ∧ n.id = d.target ∧ m.parent = n.parent ∧
    m.shape ∉ [Shape.terminal, .subgraph] ∧ n.shape ≠ .subgraph ∧
    (d.style = .dashed → L.dashed d.target)

/-- The node is reached from a node that was there before or that may be drawn while no exit is at
hand. -/
def Rooted (L : Licence) (b b' : Builder) (n : Node) : Prop :=
  ∃ s ∈ b'.nodes, s.shape ≠ .subgraph ∧ (s ∈ b.nodes ∨ L.root (idNumber s.id)) ∧
    b'.build.Reaches s.id n.id

/-- What steps from `b` to the exits `e` in `b'` keep. -/
structure Kept (L : Licence) (b : Builder) (e : List Exit) (b' : Builder) : Prop where
  sound : b'.Sound
  keeps : Extends b b'
  scopes_eq : b'.scopes = b.scopes
  stands : ∀ x ∈ e, x.Stands b'
  edge : ∀ d ∈ b'.edges, d ∈ b.edges ∨ b'.Joins L d
  rooted : ∀ n ∈ b'.nodes, n.shape ≠ .subgraph → Rooted L b b' n

variable {L : Licence} {b b₁ b' : Builder} {es e e' : List Exit} {n : Node}

/-- An edge joins nodes that are there, later on too. -/
theorem Joins.mono (hn : b.nodes ⊆ b'.nodes) {d : Edge} (h : b.Joins L d) : b'.Joins L d := by
  obtain ⟨m, hm, n, hn', hd⟩ := h
  exact ⟨m, hn hm, n, hn hn', hd⟩

/-- A node that was there before is rooted. -/
theorem Rooted.of_mem (hn : n ∈ b.nodes) (hkeep : Extends b b') (hshape : n.shape ≠ .subgraph) :
    Rooted L b b' n :=
  ⟨n, hkeep.nodes_prefix.subset hn, hshape, Or.inl hn, Relation.ReflTransGen.refl⟩

namespace Kept

/-- Where nothing is drawn, nothing is added. -/
theorem refl (hs : b.Sound) (hes : ∀ x ∈ es, x.Stands b) : Kept L b es b where
  sound := hs
  keeps := Extends.refl b
  scopes_eq := rfl
  stands := hes
  edge := fun _ hd => Or.inl hd
  rooted := fun _ hn hshape => Rooted.of_mem hn (Extends.refl b) hshape

/-- What two stretches keep, both together keep. -/
theorem trans (h₁ : Kept L b e b₁) (h₂ : Kept L b₁ e' b') : Kept L b e' b' where
  sound := h₂.sound
  keeps := h₁.keeps.trans h₂.keeps
  scopes_eq := h₂.scopes_eq.trans h₁.scopes_eq
  stands := h₂.stands
  edge := by
    intro d hd
    rcases h₂.edge d hd with hd | hd
    · exact (h₁.edge d hd).imp id (Joins.mono h₂.keeps.nodes_prefix.subset)
    · exact Or.inr hd
  rooted := by
    intro n hn hshape
    obtain ⟨s, hs, hsub, hroot | hroot, hreach⟩ := h₂.rooted n hn hshape
    · obtain ⟨s', hs', hsub', hroot', hreach'⟩ := h₁.rooted s hroot hsub
      exact ⟨s', h₂.keeps.nodes_prefix.subset hs', hsub', hroot',
        (hreach'.mono h₂.keeps.edges_prefix.subset).trans hreach⟩
    · exact ⟨s, hs, hsub, Or.inr hroot, hreach⟩

/-- Exits from before may wait. -/
theorem among (h : Kept L b e b') (hes : ∀ x ∈ es, x.Stands b) (he : e' ⊆ es ++ e) :
    Kept L b e' b' :=
  { h with
    stands := fun x hx => (List.mem_append.mp (he hx)).elim
      (fun hx => (hes x hx).mono h.keeps.nodes_prefix.subset h.scopes_eq) (h.stands x) }

/-- A new node that is linked to exits at hand. -/
theorem link (hs : b.Sound) (hes : ∀ x ∈ es, x.Stands b) (h : b.Adds n b₁)
    (hparent : n.parent = b.scopes.head?) (hshape : n.shape ≠ .subgraph)
    (he : ∀ x ∈ e, x.Leaves n) (hroot : es = [] → L.root b.next) :
    Kept L b e (b₁.linkAll es n.id) := by
  have hs₁ := h.grows.sound hs
  have hpend : ∀ x ∈ es, x.Pending b₁ := fun x hx =>
    (hes x hx).pending.mono h.grows.nodes_prefix.subset
  have hlink : Grows b₁ (b₁.linkAll es n.id) := Grows.linkAll hpend h.mem_ids fun x hx => by
    rw [h.number_eq]
    exact hs.idNumber_lt (hes x hx).pending.mem_ids
  have hgrows := h.grows.trans hlink
  have hmem : ∀ {d : Edge}, d ∈ (b₁.linkAll es n.id).edges ↔
      d ∈ b.edges ∨ ∃ x ∈ es, d = x.edgeTo b n.id :=
    h.mem_linkAll_edges hs fun x hx => (hes x hx).pending
  refine ⟨hgrows.sound hs, hgrows.extends, hgrows.scopes_eq, fun x hx => ?_, fun d hd => ?_,
    fun m hm hsub => ?_⟩
  · refine ⟨n, hlink.mem_nodes h.mem_nodes, he x hx, ?_⟩
    rw [hparent, hgrows.scopes_eq]
  · refine (hmem.mp hd).imp id ?_
    rintro ⟨x, hx, rfl⟩
    obtain ⟨m, hm, hleaves, hscope⟩ := hes x hx
    refine ⟨m, hgrows.mem_nodes hm, n, hlink.mem_nodes h.mem_nodes, hleaves.node_eq, rfl,
      hscope.trans hparent.symm, ?_, hshape, fun hdashed => ?_⟩
    · simp [hleaves.ne_terminal, hleaves.ne_subgraph]
    · exact absurd (hleaves.style_eq.symm.trans hdashed) EdgeStyle.noConfusion
  · have hm' := hm
    rw [linkAll_nodes, h.mem_iff] at hm
    rcases hm with hm | rfl
    · exact Rooted.of_mem hm hgrows.extends hsub
    by_cases hnil : es = []
    · refine ⟨m, hm', hsub, Or.inr ?_, Relation.ReflTransGen.refl⟩
      rw [h.number_eq]
      exact hroot hnil
    · obtain ⟨x, hx⟩ := List.exists_mem_of_ne_nil es hnil
      obtain ⟨k, hk, hleaves, -⟩ := hes x hx
      refine ⟨k, hgrows.mem_nodes hk, hleaves.ne_subgraph, Or.inl hk,
        Relation.ReflTransGen.single ⟨x.edgeTo b m.id, hmem.mpr (Or.inr ⟨x, hx, rfl⟩), ?_, rfl⟩⟩
      exact hleaves.node_eq.symm

/-- A new node that a dashed edge leads to. -/
theorem spur {x : Exit} {shape : Shape} {label : Option String} (hs : b.Sound) (hx : x.Stands b)
    (text : String) (line : Option Int) (hshape : shape ∉ [Shape.terminal, .subgraph, .decision])
    (hlabel : label ∈ forwardLabels) (hdashed : L.dashed (b.freshId line)) :
    Kept L b [Exit.plain (b.freshId line)]
      ((b.addNode shape text line).2.addEdge x.node (b.freshId line) label .dashed) := by
  obtain ⟨m, hm, hleaves, hscope⟩ := hx
  have hsub : shape ≠ .subgraph := fun heq => hshape (by simp [heq])
  have hadds := Adds.node b shape text line hsub
  have hx' : x.node ∈ b.ids := mem_ids.mpr ⟨m, hm, hleaves.node_eq⟩
  have hgrows := Grows.spur hs hx' hlabel hsub text line .dashed
  have hedge : ∀ {d : Edge}, d ∈ ((b.addNode shape text line).2.addEdge x.node (b.freshId line)
      label .dashed).edges ↔ d ∈ b.edges ∨ d = ⟨x.node, b.freshId line, _, .dashed⟩ :=
    mem_spur_edges hs hx' hsub text line .dashed
  have hnew : b.freshNode shape text line ∈ ((b.addNode shape text line).2.addEdge x.node
      (b.freshId line) label .dashed).nodes := by
    rw [addEdge_nodes]
    exact hadds.mem_nodes
  refine ⟨hgrows.sound hs, hgrows.extends, hgrows.scopes_eq, fun y hy => ?_, fun d hd => ?_,
    fun k hk hsubk => ?_⟩
  · refine ⟨_, hnew, Exit.leaves_plain _ hshape y hy, ?_⟩
    rw [hgrows.scopes_eq]
    rfl
  · refine (hedge.mp hd).imp id ?_
    rintro rfl
    refine ⟨m, hgrows.mem_nodes hm, _, hnew, hleaves.node_eq, rfl, hscope, ?_, hsub,
      fun _ => hdashed⟩
    simp [hleaves.ne_terminal, hleaves.ne_subgraph]
  · rw [addEdge_nodes, hadds.mem_iff] at hk
    rcases hk with hk | rfl
    · exact Rooted.of_mem hk hgrows.extends hsubk
    · exact ⟨m, hgrows.mem_nodes hm, hleaves.ne_subgraph, Or.inl hm,
        Relation.ReflTransGen.single ⟨_, hedge.mpr (Or.inr rfl), hleaves.node_eq.symm, rfl⟩⟩

/-- An edge between two exits at hand. -/
theorem edge_between {x y : Exit} (hs : b.Sound) (hes : ∀ z ∈ es, z.Stands b) (hx : x.Stands b)
    (hy : y.Stands b) (label : Option String) :
    Kept L b es (b.addEdge x.node y.node label x.style) := by
  have hkeep := Extends.addEdge b x.node y.node label x.style
  have hx' := hx.pending.mem_ids
  have hy' := hy.pending.mem_ids
  have hscopes := addEdge_scopes b x.node y.node label x.style
  refine ⟨hs.addEdge hx' hy' label x.style, hkeep, hscopes,
    fun z hz => (hes z hz).mono hkeep.nodes_prefix.subset hscopes, fun d hd => ?_,
    fun n hn hshape => Rooted.of_mem (by simpa using hn) hkeep hshape⟩
  refine ((mem_addEdge_edges (hs.isEmpty_eq_false hx') (hs.isEmpty_eq_false hy')).mp hd).imp id ?_
  rintro rfl
  obtain ⟨m, hm, hleaves, hscope⟩ := hx
  obtain ⟨n, hn, hleaves', hscope'⟩ := hy
  refine ⟨m, by simpa using hm, n, by simpa using hn, hleaves.node_eq, hleaves'.node_eq,
    hscope.trans hscope'.symm, ?_, hleaves'.ne_subgraph, fun hdashed => ?_⟩
  · simp [hleaves.ne_terminal, hleaves.ne_subgraph]
  · exact absurd (hleaves.style_eq.symm.trans hdashed) EdgeStyle.noConfusion

/-- Exits at hand that are led back to another one. -/
theorem back {head : String} {a : List Exit} (hs : b.Sound) (hes : ∀ x ∈ es, x.Stands b)
    (hhead : Exit.plain head ∈ es) (ha : a ⊆ es) : Kept L b es (b.backAll a head) := by
  induction a generalizing b with
  | nil => exact refl hs hes
  | cons x a ih =>
      have ha' : a ⊆ es := fun y hy => ha (List.mem_cons_of_mem x hy)
      rw [backAll_cons]
      split_ifs
      · exact ih hs hes ha'
      · have hedge : Kept L b es (b.addEdge x.node head (some "Repeat") x.style) :=
          edge_between hs hes (hes x (ha List.mem_cons_self)) (hes _ hhead) _
        exact hedge.trans (ih hedge.sound hedge.stands ha')

/-- A subgraph that is opened, filled and closed. -/
theorem scope (hes : ∀ x ∈ es, x.Stands b) (text : String) (line : Option Int)
    (h : Kept L (b.openSubgraph text line).2 e b₁) : Kept L b es b₁.closeSubgraph := by
  have hkeep : Extends b b₁.closeSubgraph :=
    ((Extends.openSubgraph b text line).trans h.keeps).trans (Extends.closeSubgraph b₁)
  have hscopes : b₁.closeSubgraph.scopes = b.scopes := by
    rw [closeSubgraph_scopes, h.scopes_eq]
    rfl
  refine ⟨h.sound.closeSubgraph, hkeep, hscopes,
    fun x hx => (hes x hx).mono hkeep.nodes_prefix.subset hscopes, h.edge, fun n hn hshape => ?_⟩
  obtain ⟨s, hs', hsub, hroot, hreach⟩ := h.rooted n hn hshape
  refine ⟨s, hs', hsub, hroot.imp (fun hold => ?_) id, hreach⟩
  rw [openSubgraph_nodes, List.mem_append, List.mem_singleton] at hold
  refine hold.resolve_right ?_
  rintro rfl
  exact hsub rfl

end Kept

end Builder

/-- Steps from exits of the subgraph that is open keep all of this. -/
theorem Steps.kept {L : Licence} {es e : List Exit} {b b' : Builder} (h : Steps L es b e b')
    (hs : b.Sound) (hes : ∀ x ∈ es, x.Stands b) : Kept L b e b' := by
  induction h with
  | refl es b => exact Kept.refl hs hes
  | trans _ _ ih₁ ih₂ =>
      have hk := ih₁ hs hes
      exact hk.trans (ih₂ hk.sound hk.stands)
  | among ha he _ ih => exact (ih hs fun x hx => hes x (ha hx)).among hes he
  | link hadds hparent hshape he hroot => exact Kept.link hs hes hadds hparent hshape he hroot
  | spur text line hshape hlabel hdashed =>
      exact Kept.spur hs (hes _ (List.mem_singleton_self _)) text line hshape hlabel hdashed
  | back head es b => exact Kept.back hs hes List.mem_cons_self (List.subset_cons_self _ _)
  | scope text line _ ih =>
      exact Kept.scope hes text line (ih (hs.openSubgraph text line) (by simp))

namespace Steps

variable {L : Licence} {es e e' a a' : List Exit} {b b₁ b₂ b' : Builder}

/-- Going on from some of the exits. -/
theorem on (h : Steps L es b e b₁) (h' : Steps L a b₁ a' b') (ha : a ⊆ e) (he : e' ⊆ e ++ a') :
    Steps L es b e' b' := h.trans (among ha he h')

/-- Exits may be dropped. -/
theorem drop (h : Steps L es b e b') (he : e' ⊆ e) : Steps L es b e' b' :=
  h.on (refl [] b') (List.nil_subset _) (by simpa using he)

/-- A new node with an unlabelled exit. -/
theorem place {shape : Shape} (text : String) (line : Option Int)
    (hshape : shape ∉ [Shape.terminal, .subgraph, .decision]) (hroot : es = [] → L.root b.next) :
    Steps L es b [Exit.plain (b.freshId line)] (b.place es shape text line) := by
  have hsub : shape ≠ .subgraph := fun heq => hshape (by simp [heq])
  exact link (Adds.node b shape text line hsub) rfl hsub
    (Exit.leaves_plain (b.freshNode shape text line) hshape) hroot

/-- A new decision. -/
theorem decide (text : String) (line : Option Int) (hroot : es = [] → L.root b.next) :
    Steps L es b [Exit.no (b.freshId line), Exit.yes (b.freshId line)]
      (b.place es .decision text line) :=
  link (Adds.node b .decision text line (by simp)) rfl (by simp)
    (Exit.leaves_answers (b.freshNode .decision text line) rfl) hroot

/-- Collecting the exits in a merge point. -/
theorem join (es : List Exit) (b : Builder) : Steps L es b (b.join es).1 (b.join es).2 := by
  by_cases hnil : es = []
  · rw [hnil, join_nil]
    exact refl [] b
  · rw [join_of_ne_nil b hnil]
    exact link (Adds.merge b) rfl (by simp) (Exit.leaves_plain b.mergeNode (by simp))
      fun h => absurd h hnil

end Steps

/-! ### The steps of a statement -/

/-- Drawing the block consists of steps. -/
def Block.Stepped (L : Licence) (r : Block) : Prop := Steps L r.exits r.before r.ends r.after

/-- What a statement needs to be free to do: to draw its first node while no exit is at hand, if
there is none, and its placeholder and its dashed edges. -/
structure Visit.Licensed (L : Licence) (v : Visit) : Prop where
  head : v.exits = [] → v.stmt.hasHead = true → L.root v.before.next
  placeholder : ∀ n ∈ v.placeholder?, L.root (idNumber n.id)
  handler : ∀ g ∈ v.guard?, ∀ h ∈ g.handlers, L.dashed h.node
  cleanup : ∀ g ∈ v.guard?, g.exits = [] → ∀ f ∈ v.finally?, L.dashed f.node

section Parts

variable {L : Licence} {es e : List Exit} {b b₁ : Builder}

/-- A chain of decisions. -/
theorem Chain.Laid.steps {c : Chain} (hc : c.Laid es b)
    (hroot : es = [] → c.links ≠ [] → L.root b.next) (hr : ∀ r ∈ c.blocks, r.Stepped L) :
    Steps L es b c.ends c.last.after := by
  induction hc with
  | last r => exact hr r (List.mem_singleton_self r)
  | @cons es b text line body c hc ih =>
      rw [Chain.cons_blocks] at hr
      have hdecide : Steps L es b [Exit.no (b.freshId line), Exit.yes (b.freshId line)]
          (b.place es .decision text line) :=
        Steps.decide text line fun h => hroot h (List.cons_ne_nil _ _)
      have hyes : Steps L es b (Exit.no (b.freshId line) :: (yesBlock es b text line body).ends)
          (yesBlock es b text line body).after :=
        hdecide.on (hr _ List.mem_cons_self) (by simp [yesBlock]) (by simp)
      have hrest := ih (by simp) fun r hmem => hr r (List.mem_cons_of_mem _ hmem)
      rw [Chain.cons_ends, Chain.cons_last]
      exact hyes.on hrest (by simp) (by simp)

/-- A loop with the edges back to its head. -/
theorem loopFrom_steps (line : Option Int) (text : String) (body : List Stmt) (update : String)
    (hroot : es = [] → L.root b.next)
    (hr : (loopFrom es b line text body update).body.Stepped L) :
    Steps L es b (Exit.plain (loopFrom es b line text body update).head ::
      (loopFrom es b line text body update).ends) (loopFrom es b line text body update).closed := by
  set l := loopFrom es b line text body update with hl
  have hhead : Steps L es b [Exit.plain l.head] l.body.before :=
    Steps.place text line (by simp) hroot
  have hbody : Steps L es b (Exit.plain l.head :: l.body.ends) l.body.after :=
    hhead.on hr (by simp [hl, loopFrom]) (by simp)
  have hupdate : Steps L es b (Exit.plain l.head :: l.ends) l.after := by
    rw [Loop.ends, Loop.after]
    split_ifs with hupdates
    · have hplace : Steps L l.body.ends l.body.after [Exit.plain (l.body.after.freshId l.line)]
          (l.body.after.place l.body.ends .process l.update l.line) :=
        Steps.place l.update l.line (by simp) fun hnil => by simp [Loop.updates, hnil] at hupdates
      exact hbody.on hplace (List.subset_cons_self _ _) (by simp)
    · exact hbody
  exact hupdate.trans (Steps.back l.head l.ends l.after)

/-- The start of a counted loop. -/
theorem countedEntry_steps (line : Option Int) (init : String) (hroot : es = [] → L.root b.next) :
    Steps L es b (countedEntry line init es b).1 (countedEntry line init es b).2 := by
  rw [countedEntry]
  split_ifs
  · exact Steps.refl es b
  · exact Steps.place init line (by simp) hroot

/-- Handlers one after another, the entry of the guarded statement still at hand. -/
theorem Steps.handlers {entry : String} (handlers : List (Handler Stmt))
    (h : Steps L es b (Exit.plain entry :: e) b₁)
    (hr : ∀ l ∈ (handlerLinks entry handlers b₁).1, l.block.Stepped L ∧ L.dashed l.node) :
    Steps L es b
      (Exit.plain entry :: (e ++ (handlerLinks entry handlers b₁).1.flatMap (·.block.ends)))
      (handlerLinks entry handlers b₁).2 := by
  induction handlers generalizing b₁ e with
  | nil => simpa [handlerLinks] using h
  | cons hd rest ih =>
      obtain ⟨label, line, body⟩ := hd
      set r : Block := ⟨body, [Exit.plain (b₁.freshId line)],
        (b₁.addNode .flag label line).2.addEdge entry (b₁.freshId line) (some "Exception")
          .dashed⟩ with hdef
      have hlinks : handlerLinks entry (⟨label, line, body⟩ :: rest) b₁ =
          (⟨b₁.freshId line, r⟩ :: (handlerLinks entry rest r.after).1,
            (handlerLinks entry rest r.after).2) := rfl
      rw [hlinks] at hr ⊢
      obtain ⟨hbody, hdashed⟩ := hr _ List.mem_cons_self
      have hspur : Steps L [Exit.plain entry] b₁ r.exits r.before :=
        Steps.spur label line (by simp) (by simp [forwardLabels]) hdashed
      have hhandler : Steps L es b (Exit.plain entry :: (e ++ r.ends)) r.after :=
        h.on (hspur.trans hbody) (by simp) (by simp)
      have hrest := ih hhandler fun l hl => hr l (List.mem_cons_of_mem _ hl)
      simpa only [List.flatMap_cons, List.append_assoc] using hrest

/-- The cleanup of a guarded statement, reached from its entry if from nowhere else. -/
theorem Steps.cleanup {entry : String} {a : List Exit} (c : Cleanup Stmt)
    (h : Steps L es b (Exit.plain entry :: a) b₁) (hr : (cleanupLink entry a c b₁).block.Stepped L)
    (hdashed : a = [] → L.dashed (cleanupLink entry a c b₁).node) :
    Steps L es b (if a.isEmpty then [] else (cleanupLink entry a c b₁).block.ends)
      (cleanupLink entry a c b₁).block.after := by
  cases a with
  | nil =>
      have hspur : Steps L [Exit.plain entry] b₁ [Exit.plain (b₁.freshId c.line)]
          (cleanupLink entry [] c b₁).block.before :=
        Steps.spur "Finally" c.line (by simp) (by simp [forwardLabels]) (hdashed rfl)
      exact h.on (hspur.trans hr) (by simp) (List.nil_subset _)
  | cons x a =>
      have hplace : Steps L (x :: a) b₁ [Exit.plain (b₁.freshId c.line)]
          (cleanupLink entry (x :: a) c b₁).block.before :=
        Steps.place "Finally" c.line (by simp) fun h => absurd h (List.cons_ne_nil _ _)
      exact h.on (hplace.trans hr) (List.subset_cons_self _ _) (List.subset_append_right _ _)

/-- The members of a container. -/
theorem memberBlocks_steps (members : List Stmt) (hr : ∀ r ∈ memberBlocks members b, r.Stepped L) :
    Steps L [] b [] (lowerMembers members b).2 := by
  induction members generalizing b with
  | nil => exact Steps.refl [] b
  | cons s rest ih =>
      have hfirst : (⟨[s], [], b⟩ : Block).Stepped L := hr _ List.mem_cons_self
      exact (hfirst.drop (List.nil_subset _)).trans (ih fun r hmem => hr r (List.mem_cons_of_mem _ hmem))

end Parts

namespace Visit

variable {L : Licence}

/-- A chain of decisions is drawn in steps. -/
theorem steps_chain {v : Visit} {c : Chain} (hc : v.chain? = some c) (hL : v.Licensed L)
    (hr : ∀ r ∈ v.blocks, r.Stepped L) : Steps L v.exits v.before v.ends v.after := by
  obtain ⟨hclose, hlaid, hblocks⟩ := close_chain hc
  have hsteps : Steps L v.exits v.before c.ends c.last.after :=
    hlaid.steps (fun hnil hlinks => hL.head hnil ((hasHead_iff_links hc).mpr hlinks))
      (hblocks ▸ hr)
  rw [Chain.close] at hclose
  split_ifs at hclose with hlinks
  · obtain ⟨hends, hafter⟩ := Prod.mk.inj hclose
    have hlast : c.ends = c.last.ends := by
      rw [Chain.ends, List.isEmpty_iff.mp hlinks]
      rfl
    rw [hends, hafter, ← hlast]
    exact hsteps
  · have hends : v.ends = (c.last.after.join c.ends).1 := congrArg Prod.fst hclose
    have hafter : v.after = (c.last.after.join c.ends).2 := congrArg Prod.snd hclose
    rw [hends, hafter]
    exact hsteps.trans (Steps.join _ _)

/-- A guarded statement is drawn in steps. -/
theorem steps_guarded {v : Visit} {g : Guard} (hg : v.guard? = some g) (hhead : v.stmt.hasHead = true)
    (hL : v.Licensed L) (hr : ∀ r ∈ v.blocks, r.Stepped L) :
    Steps L v.exits v.before v.ends v.after := by
  obtain ⟨text, line, hnode, hfirst⟩ := exists_entry hg
  obtain ⟨hexits, hexits', -, -⟩ := exits_guard hg
  obtain ⟨hnext, handlers, hlinks⟩ := exists_handlers hg
  obtain ⟨hhandlers, hlast⟩ := Prod.mk.inj hlinks
  have hentry : Steps L v.exits v.before [Exit.plain g.entry] g.body.before := by
    rw [hnode, hfirst]
    exact Steps.place text line (by simp) fun h => hL.head h hhead
  have hbody : Steps L v.exits v.before (Exit.plain g.entry :: g.body.ends) g.orelse.before := by
    rw [hnext]
    exact hentry.on (hr g.body (body_mem_blocks hg)) (by simp [hexits]) (by simp)
  have horelse : Steps L v.exits v.before (Exit.plain g.entry :: g.orelse.ends) g.orelse.after :=
    hbody.on (hr g.orelse (orelse_mem_blocks hg)) (by simp [hexits']) (by simp)
  have hhandled : Steps L v.exits v.before (Exit.plain g.entry :: g.exits) g.handled := by
    rw [Guard.exits, hhandlers, hlast]
    refine horelse.handlers handlers fun l hl => ?_
    have hmem : l ∈ g.handlers := hhandlers ▸ hl
    exact ⟨hr l.block (handler_mem_blocks hg hmem), hL.handler g hg l hmem⟩
  have hjoined : Steps L v.exits v.before (Exit.plain g.entry :: g.joined.1) g.joined.2 :=
    hhandled.on (Steps.join g.exits g.handled) (List.subset_cons_self _ _) (by simp [Guard.joined])
  cases hf : v.finally? with
  | none =>
      obtain ⟨hends, hafter⟩ := close_guard_none hg hf
      rw [hends, hafter]
      exact hjoined.drop (List.subset_cons_self _ _)
  | some f =>
      obtain ⟨hends, hafter⟩ := close_guard_some hg hf
      have hblock : f.block.Stepped L := hr f.block (finally_mem_blocks hg hf)
      have hdashed : g.joined.1 = [] → L.dashed f.node := fun hnil =>
        hL.cleanup g hg (g.joined_eq_nil_iff.mp hnil) f hf
      obtain ⟨c, rfl⟩ := exists_cleanup hg hf
      rw [hends, hafter]
      exact hjoined.cleanup c hblock hdashed

/-- A container is drawn in steps, its members from no exit. -/
theorem steps_container {line : Option Int} {text : String} {members : List Stmt} {es : List Exit}
    {b : Builder} (hL : (⟨.container line text members, es, b⟩ : Visit).Licensed L)
    (hr : ∀ r ∈ (⟨.container line text members, es, b⟩ : Visit).blocks, r.Stepped L) :
    Steps L es b (⟨.container line text members, es, b⟩ : Visit).ends
      (⟨.container line text members, es, b⟩ : Visit).after := by
  set v : Visit := ⟨.container line text members, es, b⟩ with hv
  set b₁ := (lowerMembers members (b.openSubgraph text line).2).2 with hb₁
  have hlower : (v.ends, v.after) = (es, if b₁.nodes.length = b.nodes.length + 1 then
      (b₁.addNode .process text line).2.closeSubgraph else b₁.closeSubgraph) :=
    lowerStmt_container ..
  obtain ⟨hends, hafter⟩ := Prod.mk.inj hlower
  have hmembers : Steps L [] (b.openSubgraph text line).2 [] b₁ := memberBlocks_steps members hr
  rw [hends, hafter]
  split_ifs with hempty
  · have hplaceholder : v.placeholder? = some (b₁.freshNode .process text line) := if_pos hempty
    have hroot : L.root b₁.next := by
      have := hL.placeholder _ hplaceholder
      rwa [(Adds.node b₁ .process text line (by simp)).number_eq] at this
    exact Steps.scope text line
      (hmembers.trans (Steps.place text line (by simp) fun _ => hroot))
  · exact Steps.scope text line hmembers

/-- Every statement is drawn by steps if its blocks are. -/
theorem steps_of_blocks (v : Visit) (hL : v.Licensed L) (hr : ∀ r ∈ v.blocks, r.Stepped L) :
    Steps L v.exits v.before v.ends v.after := by
  obtain ⟨s, es, b⟩ := v
  cases s with
  | simple line text => exact Steps.place text line (by simp) fun h => hL.head h rfl
  | branch => exact steps_chain rfl hL hr
  | loop line text body orelse =>
      set l := loopFrom es b line text body "" with hl
      have hloop : Steps L es b (Exit.plain l.head :: l.ends) l.closed :=
        loopFrom_steps line text body "" (fun h => hL.head h rfl) (hr l.body List.mem_cons_self)
      exact hloop.on (hr ⟨orelse, [Exit.plain l.head], l.closed⟩ (by simp [blocks, hl]))
        (by simp) (List.subset_append_right _ _)
  | countedLoop line text init cond update body =>
      set entry := countedEntry line init es b with he
      set l := loopFrom entry.1 entry.2 line (orText cond text) body update with hl
      have hlower : ((⟨.countedLoop line text init cond update body, es, b⟩ : Visit).ends,
          (⟨.countedLoop line text init cond update body, es, b⟩ : Visit).after) =
          ([Exit.plain l.head], l.closed) := lowerStmt_countedLoop ..
      obtain ⟨hends, hafter⟩ := Prod.mk.inj hlower
      have hentry : Steps L es b entry.1 entry.2 :=
        countedEntry_steps line init fun h => hL.head h rfl
      have hroot : entry.1 = [] → L.root entry.2.next := by
        rw [he, countedEntry]
        split_ifs
        · exact fun h => hL.head h rfl
        · exact fun h => absurd h (by simp)
      have hloop : Steps L entry.1 entry.2 (Exit.plain l.head :: l.ends) l.closed :=
        loopFrom_steps line (orText cond text) body update hroot (hr l.body List.mem_cons_self)
      rw [hends, hafter]
      exact hentry.trans (hloop.drop (by simp))
  | guarded => exact steps_guarded rfl rfl hL hr
  | switch => exact steps_chain rfl hL hr
  | resource line text body close =>
      set r : Block := ⟨body, [Exit.plain (b.freshId line)], b.place es .process text line⟩ with hdef
      have hlower : ((⟨.resource line text body close, es, b⟩ : Visit).ends,
          (⟨.resource line text body close, es, b⟩ : Visit).after) =
          if r.ends.isEmpty then ([], r.after) else ([Exit.plain (r.after.freshId line)],
            r.after.place r.ends .process (orText close "Close") line) := lowerStmt_resource ..
      have hbody : Steps L es b r.ends r.after :=
        (Steps.place text line (by simp) fun h => hL.head h rfl).trans
          (hr r (List.mem_singleton_self r))
      split_ifs at hlower with hempty
      · obtain ⟨hends, hafter⟩ := Prod.mk.inj hlower
        rw [hends, hafter]
        exact hbody.drop (List.nil_subset _)
      · obtain ⟨hends, hafter⟩ := Prod.mk.inj hlower
        rw [hends, hafter]
        exact hbody.trans (Steps.place (orText close "Close") line (by simp) fun h =>
          absurd (List.isEmpty_iff.mpr h) hempty)
  | terminal line text =>
      exact Steps.link (e := []) (Adds.node b .terminal text line (by simp)) rfl (by simp) (by simp)
        fun h => hL.head h rfl
  | function line text body =>
      have hhead : Steps L es b [Exit.plain (b.freshId line)] (b.place es .stadium text line) :=
        Steps.place text line (by simp) fun h => hL.head h rfl
      exact hhead.on (hr ⟨body, [Exit.plain (b.freshId line)], b.place es .stadium text line⟩
        (List.mem_singleton_self _)) (List.Subset.refl _) (List.subset_append_left _ _)
  | container => exact steps_container hL hr
  | block line body => exact hr ⟨body, es, b⟩ (List.mem_singleton_self _)
  | skip => exact Steps.refl es b

end Visit

/-- Drawing a block consists of steps if its statements have the licence. -/
theorem Block.steps {L : Licence} (r : Block) (hL : ∀ v, Visits r v → v.Licensed L) :
    r.Stepped L := by
  induction r using Block.induction with
  | nil es b => exact Steps.refl es b
  | cons s rest es b hblocks hrest =>
      have hfirst := Visit.steps_of_blocks ⟨s, es, b⟩ (hL _ Visits.here) fun r hr =>
        hblocks r hr fun v hv => hL v (Visits.inside hr hv)
      exact hfirst.trans (hrest fun v hv => hL v (Visits.later hv))

/-- What drawing a block keeps if its statements have the licence. -/
theorem Block.kept {L : Licence} (r : Block) (hs : r.before.Sound)
    (hes : ∀ x ∈ r.exits, x.Stands r.before) (hL : ∀ v, Visits r v → v.Licensed L) :
    Kept L r.before r.ends r.after := (r.steps hL).kept hs hes

end Flowchart
