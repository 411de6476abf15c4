import Flowchart.Proofs.Drawing.Layout

/-!
# Sketches of statements

A statement is drawn step by step: a node that the exits lead to, then blocks, further nodes and
edges. `Sketch` is what holds after each of these steps. It records the node `t` at which the
statement is entered, the exits at which it goes on so far, and the blocks drawn so far, each of
which is left alone by everything after it. One lemma for each kind of step says that the step
keeps the sketch; a statement is then drawn by a chain of them.

The parameter `P` of a sketch is what its own nodes are, those that lie in none of its blocks.

## What is left open

While a statement is being drawn some of its exits wait. A sketch lists all exits that are at hand, and
each step goes on from some of them: those that it takes are replaced by its own ends, and the others
stay. So the exits of a finished sketch are those of the statement, and a step never needs to know what
the others wait for.

## Main results

* `Sketch.start`, `Sketch.enter`: how a sketch begins.
* `Sketch.place`, `Sketch.block`, `Sketch.spur`, `Sketch.back`: how it goes on.
* `Sketch.fragment`: what it comes to.
-/

namespace Flowchart

open Builder

/-! ### New nodes -/

/-- `b₁` is `b` with the node `n`. -/
structure Builder.Adds (b : Builder) (n : Node) (b₁ : Builder) : Prop where
  grows : Grows b b₁
  nodes_eq : b₁.nodes = b.nodes ++ [n]
  edges_eq : b₁.edges = b.edges
  number_eq : idNumber n.id = b.next

namespace Builder.Adds

variable {b b₁ : Builder} {n : Node}

/-- A new node is added, and nothing else. -/
theorem node (b : Builder) (shape : Shape) (text : String) (line : Option Int)
    (h : shape ≠ .subgraph) :
    b.Adds (b.freshNode shape text line) (b.addNode shape text line).2 where
  grows := Grows.node b text line h IdFamily.proper_line
  nodes_eq := rfl
  edges_eq := rfl
  number_eq := idNumber_idOf IdFamily.proper_line line b.next

/-- A merge point is added, and nothing else. -/
theorem merge (b : Builder) : b.Adds b.mergeNode b.addMerge.2 where
  grows := Grows.merge b
  nodes_eq := rfl
  edges_eq := rfl
  number_eq := idNumber_idOf IdFamily.proper_merge none b.next

/-- The node that is added is there. -/
theorem mem_nodes (h : b.Adds n b₁) : n ∈ b₁.nodes := by
  rw [h.nodes_eq]
  exact List.mem_append_right _ (List.mem_singleton_self n)

/-- So is its id. -/
theorem mem_ids (h : b.Adds n b₁) : n.id ∈ b₁.ids := Builder.mem_ids.mpr ⟨n, h.mem_nodes, rfl⟩

/-- The new node is the last one. -/
theorem mem_iff (h : b.Adds n b₁) {m : Node} : m ∈ b₁.nodes ↔ m ∈ b.nodes ∨ m = n := by
  rw [h.nodes_eq, List.mem_append, List.mem_singleton]

/-- The edges after exits have been linked to a new node. -/
theorem mem_linkAll_edges (h : b.Adds n b₁) (hs : b.Sound) {es : List Exit}
    (hes : ∀ x ∈ es, x.Pending b) {d : Edge} : d ∈ (b₁.linkAll es n.id).edges ↔
      d ∈ b.edges ∨ ∃ x ∈ es, d = x.edgeTo b n.id := by
  have hs₁ := h.grows.sound hs
  rw [Builder.mem_linkAll_edges
    (fun x hx => hs₁.isEmpty_eq_false (h.grows.mem_ids (hes x hx).mem_ids))
    (hs₁.isEmpty_eq_false h.mem_ids), h.edges_eq]
  simp only [h.grows.edgeTo_eq]

end Builder.Adds

/-- A new node that an edge from an earlier one leads to. -/
theorem Builder.Grows.spur {b : Builder} {t : String} {shape : Shape} {label : Option String}
    (hs : b.Sound) (ht : t ∈ b.ids) (hlabel : label ∈ forwardLabels) (hshape : shape ≠ .subgraph)
    (text : String) (line : Option Int) (style : EdgeStyle) :
    Grows b ((b.addNode shape text line).2.addEdge t (b.freshId line) label style) := by
  have hadds := Adds.node b shape text line hshape
  have hlt : idNumber t < idNumber (b.freshNode shape text line).id := by
    rw [hadds.number_eq]
    exact hs.idNumber_lt ht
  exact hadds.grows.trans
    (Grows.forward style (hadds.grows.mem_ids ht) hadds.mem_ids hlt hlabel)

/-- The edges after a new node with an edge from an earlier one. -/
theorem Builder.mem_spur_edges {b : Builder} {t : String} {shape : Shape} {label : Option String}
    (hs : b.Sound) (ht : t ∈ b.ids) (hshape : shape ≠ .subgraph) (text : String)
    (line : Option Int) (style : EdgeStyle) {d : Edge} :
    d ∈ ((b.addNode shape text line).2.addEdge t (b.freshId line) label style).edges ↔
      d ∈ b.edges ∨ d = ⟨t, b.freshId line, b.edgeLabel label, style⟩ := by
  have hadds := Adds.node b shape text line hshape
  have hs₁ := hadds.grows.sound hs
  exact mem_addEdge_edges (hs₁.isEmpty_eq_false (hadds.grows.mem_ids ht))
    (hs₁.isEmpty_eq_false hadds.mem_ids)

/-- Control goes on from a new node that an edge leads to. -/
theorem Builder.pending_spur (b : Builder) (t : String) {shape : Shape} (label : Option String)
    (hshape : shape ∉ [Shape.terminal, .subgraph, .decision]) (text : String) (line : Option Int)
    (style : EdgeStyle) : ∀ x ∈ [Exit.plain (b.freshId line)], x.Pending
      ((b.addNode shape text line).2.addEdge t (b.freshId line) label style) := by
  intro x hx
  refine ⟨b.freshNode shape text line, ?_, Exit.leaves_plain _ hshape x hx⟩
  rw [addEdge_nodes]
  exact (Adds.node b shape text line fun h => hshape (by simp [h])).mem_nodes

/-- Exits that are linked to a new node, at which control ends or goes on. -/
theorem Linked.start {es e : List Exit} {b b₁ : Builder} {n : Node} (h : b.Adds n b₁)
    (hs : b.Sound) (hes : ∀ x ∈ es, x.Pending b) (he : ∀ x ∈ e, x.Leaves n)
    (hlead : n.shape = .terminal ∨ e ≠ []) :
    Grows b (b₁.linkAll es n.id) ∧ (∀ x ∈ e, x.Pending (b₁.linkAll es n.id)) ∧
      (∀ d ∈ (b₁.linkAll es n.id).edges, d ∈ b.edges ∨ b.next ≤ idNumber d.target) ∧
      Linked es b n.id e (b₁.linkAll es n.id) := by
  have hs₁ := h.grows.sound hs
  have hpend : ∀ x ∈ es, x.Pending b₁ := fun x hx => (hes x hx).mono h.grows.nodes_prefix.subset
  have hlink : Grows b₁ (b₁.linkAll es n.id) := Grows.linkAll hpend h.mem_ids fun x hx => by
    rw [h.number_eq]
    exact hs.idNumber_lt (hes x hx).mem_ids
  have hmem : ∀ {d : Edge}, d ∈ (b₁.linkAll es n.id).edges ↔
      d ∈ b.edges ∨ ∃ x ∈ es, d = x.edgeTo b n.id := h.mem_linkAll_edges hs hes
  refine ⟨h.grows.trans hlink, fun x hx => ⟨n, hlink.mem_nodes h.mem_nodes, he x hx⟩, ?_,
    ?_, ?_, ?_, ?_⟩
  · intro d hd
    refine (hmem.mp hd).imp id ?_
    rintro ⟨x, -, rfl⟩
    exact Nat.le_of_eq h.number_eq.symm
  · exact fun d hd => (hmem.mp hd).imp id Or.inr
  · exact fun x hx => hmem.mpr (Or.inr ⟨x, hx, rfl⟩)
  · rintro -
    rcases hlead with hterminal | hne
    · exact Or.inl ⟨n, hlink.mem_nodes h.mem_nodes, hterminal, Relation.ReflTransGen.refl⟩
    · obtain ⟨x, hx⟩ := List.exists_mem_of_ne_nil e hne
      rw [(he x hx).node_eq]
      exact LeadsOn.of_mem hx
  · intro x hx
    exact Nat.le_of_eq (by rw [← (he x hx).node_eq, h.number_eq])

/-- A new node that all exits lead to is a fragment. -/
theorem Fragment.link {es e : List Exit} {b b₁ : Builder} {n : Node} (h : b.Adds n b₁)
    (hs : b.Sound) (hes : ∀ x ∈ es, x.Pending b) (he : ∀ x ∈ e, x.Leaves n)
    (hlead : n.shape = .terminal ∨ e ≠ []) : Fragment es b e (b₁.linkAll es n.id) := by
  obtain ⟨hgrows, hpending, htarget, hlinked⟩ := Linked.start h hs hes he hlead
  exact ⟨hgrows, hpending, htarget, Or.inr ⟨n.id, hlinked⟩⟩

/-- Exits that are linked to a new node that control goes on from. -/
theorem Fragment.place {es : List Exit} {b : Builder} {shape : Shape} (hs : b.Sound)
    (hes : ∀ x ∈ es, x.Pending b) (hshape : shape ∉ [Shape.terminal, .subgraph, .decision])
    (text : String) (line : Option Int) :
    Fragment es b [Exit.plain (b.freshId line)] (b.place es shape text line) :=
  Fragment.link (Adds.node b shape text line fun h => hshape (by simp [h])) hs hes
    (Exit.leaves_plain (b.freshNode shape text line) hshape) (Or.inr (List.cons_ne_nil _ _))

/-- Exits that are collected in a merge point. -/
theorem Fragment.join {es : List Exit} {b : Builder} (hs : b.Sound)
    (hes : ∀ x ∈ es, x.Pending b) : Fragment es b (b.join es).1 (b.join es).2 := by
  by_cases hne : es = []
  · rw [hne, join_nil]
    exact Fragment.refl (by simp)
  · rw [join_of_ne_nil b hne]
    exact Fragment.link (Adds.merge b) hs hes (Exit.leaves_plain b.mergeNode (by simp))
      (Or.inr (List.cons_ne_nil _ _))

/-! ### Single steps -/

/-- One step of drawing a statement that is entered at `t`, from the exits `e` to the exits `e'`:
a new edge leads from `t`, an exit or a new node to `t` or a new node. -/
structure Advance (t : String) (e : List Exit) (b : Builder) (e' : List Exit) (b' : Builder) :
    Prop where
  grows : Grows b b'
  pending : ∀ x ∈ e', x.Pending b'
  edge : ∀ d ∈ b'.edges, d ∈ b.edges ∨ (b.next ≤ idNumber d.target ∨ d.target = t) ∧
    (b.next ≤ idNumber d.source ∨ d.source = t ∨ ∃ x ∈ e, x.node = d.source)
  exit : ∀ x ∈ e', b.next ≤ idNumber x.node ∨ x ∈ e

namespace Advance

variable {t : String} {e e' : List Exit} {b b' : Builder}

/-- A step leaves every piece alone that was drawn before and lies behind `t`. -/
theorem framed (h : Advance t e b e' b') {lo : Nat} (hlo : idNumber t < lo) :
    Framed lo e b e' b' where
  keeps := h.grows.extends
  edge := by
    intro d hd
    refine (h.edge d hd).imp id fun ⟨htarget, hsource⟩ => ⟨?_, ?_⟩
    · rcases htarget with htarget | rfl
      · exact Or.inr htarget
      · exact Or.inl hlo
    · rcases hsource with hsource | rfl | hsource
      · exact Or.inl (Or.inr hsource)
      · exact Or.inl (Or.inl hlo)
      · exact Or.inr hsource
  exit := fun x hx => (h.exit x hx).imp Or.inr id

end Advance

/-- A fragment that goes on from some of the exits is a step. -/
theorem Fragment.advance {a a' e e' : List Exit} {b b' : Builder} (h : Fragment a b a' b')
    (t : String) (hae : a ⊆ e) (he : ∀ x ∈ e, x.Pending b) (he' : ∀ x ∈ e', x ∈ e ∨ x ∈ a') :
    Advance t e b e' b' where
  grows := h.grows
  pending := fun x hx => (he' x hx).elim (fun hx => (he x hx).mono h.grows.nodes_prefix.subset)
    (h.pending x)
  edge := by
    intro d hd
    rcases h.target d hd with hd' | htarget
    · exact Or.inl hd'
    · refine (h.source hd).imp id fun hsource =>
        ⟨Or.inl htarget, hsource.imp id fun ⟨x, hx, hx'⟩ => ?_⟩
      exact Or.inr ⟨x, hae hx, hx'⟩
  exit := by
    intro x hx
    rcases he' x hx with hx | hx
    · exact Or.inr hx
    · rcases h.ends hx with hx | hx
      · exact Or.inr (hae hx)
      · exact Or.inl hx

/-- Where the exits of a fragment take the place of those it goes on from, control goes on. -/
theorem Fragment.leads {a a' e e' : List Exit} {b b' : Builder} (h : Fragment a b a' b')
    (he : ∀ y ∈ e, y ∈ e' ∨ y ∈ a) (ha' : a' ⊆ e') {x : String} (hx : LeadsOn b x e) :
    LeadsOn b' x e' := by
  refine (h.grows.leadsOn (List.Subset.refl e) hx).bind fun y hy => ?_
  rcases he y hy with hy | hy
  · exact LeadsOn.of_mem hy
  · exact (h.leadsOn hy).mono (List.Subset.refl _) (List.Subset.refl _) ha'

/-! ### Sketches -/

/-- Drawing the block has a segment. -/
def Block.Good (r : Block) : Prop :=
  r.before.Sound → (∀ x ∈ r.exits, x.Pending r.before) → Segment r.exits r.before r.ends r.after

/-- The block `r` is drawn on the way from `b` to `b'` and left alone by everything drawn after
it. -/
structure Block.Placed (r : Block) (b : Builder) (e : List Exit) (b' : Builder) : Prop where
  sound : r.before.Sound
  pending : ∀ x ∈ r.exits, x.Pending r.before
  entered : Extends b r.before
  framed : Framed r.before.next r.ends r.after e b'

/-- What holds while a statement is drawn: see the module's description. -/
structure Sketch (P : Node → Prop) (es : List Exit) (b : Builder) (t : String) (e : List Exit)
    (blocks : List Block) (b' : Builder) : Prop where
  sound : b.Sound
  number_eq : idNumber t = b.next
  mem : t ∈ b'.ids
  grows : Grows b b'
  pending : ∀ x ∈ e, x.Pending b'
  target : ∀ d ∈ b'.edges, d ∈ b.edges ∨ b.next ≤ idNumber d.target
  linked : Linked es b t e b'
  placed : ∀ r ∈ blocks, b.next < r.before.next ∧ r.Placed b e b'
  cover : ∀ n ∈ b'.nodes, n ∈ b.nodes ∨ P n ∨ ∃ r ∈ blocks, n ∈ r.after.nodes ∧ n ∉ r.before.nodes

namespace Sketch

variable {P : Node → Prop} {es e e' c a a' : List Exit} {b b₁ b₂ : Builder} {t : String}
  {blocks : List Block}

/-- What has been drawn so far is a fragment. -/
theorem fragment (h : Sketch P es b t e blocks b₁) : Fragment es b e b₁ :=
  ⟨h.grows, h.pending, h.target, Or.inr ⟨t, h.linked⟩⟩

/-- The builder of a sketch is sound. -/
theorem sound_after (h : Sketch P es b t e blocks b₁) : b₁.Sound := h.grows.sound h.sound

/-- A statement starts with a node that the exits lead to. -/
theorem start {n : Node} (h : b.Adds n b₁) (hs : b.Sound) (hes : ∀ x ∈ es, x.Pending b)
    (he : ∀ x ∈ e, x.Leaves n) (hlead : n.shape = .terminal ∨ e ≠ []) (hP : P n) :
    Sketch P es b n.id e [] (b₁.linkAll es n.id) := by
  obtain ⟨hgrows, hpending, htarget, hlinked⟩ := Linked.start h hs hes he hlead
  refine ⟨hs, h.number_eq, ?_, hgrows, hpending, htarget, hlinked, by simp, ?_⟩
  · rw [linkAll_ids]
    exact h.mem_ids
  · intro m hm
    rw [linkAll_nodes, h.mem_iff] at hm
    rcases hm with hm | rfl
    · exact Or.inl hm
    · exact Or.inr (Or.inl hP)

/-- A step keeps the sketch. -/
theorem advance (h : Sketch P es b t e blocks b₁) (ha : Advance t e b₁ e' b₂)
    (hlead : LeadsOn b₁ t e → LeadsOn b₂ t e') (hP : ∀ n ∈ b₂.nodes, n ∈ b₁.nodes ∨ P n) :
    Sketch P es b t e' blocks b₂ := by
  have hnext := h.grows.next_le
  have ht := h.number_eq
  refine ⟨h.sound, ht, ha.grows.mem_ids h.mem, h.grows.trans ha.grows, ha.pending, ?_, ?_, ?_, ?_⟩
  · intro d hd
    rcases ha.edge d hd with hd | ⟨htarget | rfl, -⟩
    · exact h.target d hd
    · exact Or.inr (by omega)
    · exact Or.inr (by omega)
  · refine ⟨fun d hd => ?_, fun x hx => ha.grows.mem_edges (h.linked.linked x hx),
      fun hne => hlead (h.linked.leads hne), fun x hx => ?_⟩
    · rcases ha.edge d hd with hd | ⟨-, hsource | rfl | ⟨x, hx, hsource⟩⟩
      · exact h.linked.source d hd
      · exact Or.inr (Or.inl (by omega))
      · exact Or.inr (Or.inl (by omega))
      · exact Or.inr (Or.inl (hsource ▸ h.linked.fresh x hx))
    · rcases ha.exit x hx with hx | hx
      · omega
      · exact h.linked.fresh x hx
  · intro r hr
    obtain ⟨hlt, hp⟩ := h.placed r hr
    refine ⟨hlt, hp.sound, hp.pending, hp.entered, ?_⟩
    exact hp.framed.trans (Nat.le_refl _) (ha.framed (by omega))
  · intro n hn
    rcases hP n hn with hn | hn
    · exact h.cover n hn
    · exact Or.inr (Or.inl hn)

/-- Going on from some of the exits with nodes of the statement's own. -/
theorem go (h : Sketch P es b t (c ++ a) blocks b₁) (hf : Fragment a b₁ a' b₂)
    (hP : ∀ n ∈ b₂.nodes, n ∈ b₁.nodes ∨ P n) : Sketch P es b t (c ++ a') blocks b₂ := by
  have he' : ∀ x ∈ c ++ a', x ∈ c ++ a ∨ x ∈ a' := by
    intro x hx
    rcases List.mem_append.mp hx with hx | hx
    · exact Or.inl (List.mem_append_left a hx)
    · exact Or.inr hx
  refine h.advance (hf.advance t (List.subset_append_right c a) h.pending he') ?_ hP
  refine hf.leads (fun y hy => ?_) (List.subset_append_right c a')
  exact (List.mem_append.mp hy).imp (List.mem_append_left a') id

/-- A statement starts with a node that control goes on from. -/
theorem enter {shape : Shape} (hs : b.Sound) (hes : ∀ x ∈ es, x.Pending b)
    (hshape : shape ∉ [Shape.terminal, .subgraph, .decision]) (text : String) (line : Option Int)
    (hP : P (b.freshNode shape text line)) :
    Sketch P es b (b.freshId line) [Exit.plain (b.freshId line)] []
      (b.place es shape text line) :=
  Sketch.start (Adds.node b shape text line fun h => hshape (by simp [h])) hs hes
    (Exit.leaves_plain (b.freshNode shape text line) hshape) (Or.inr (List.cons_ne_nil _ _)) hP

/-- Going on from some of the exits with a node. -/
theorem place (h : Sketch P es b t (c ++ a) blocks b₁) {shape : Shape}
    (hshape : shape ∉ [Shape.terminal, .subgraph, .decision]) (text : String) (line : Option Int)
    (hP : P (b₁.freshNode shape text line)) :
    Sketch P es b t (c ++ [Exit.plain (b₁.freshId line)]) blocks (b₁.place a shape text line) := by
  refine h.go (Fragment.place h.sound_after (fun x hx => h.pending x (List.mem_append_right c hx))
    hshape text line) fun n hn => ?_
  rw [Builder.place, linkAll_nodes, addNode_nodes, List.mem_append, List.mem_singleton] at hn
  refine hn.imp id ?_
  rintro rfl
  exact hP

/-- Going on from some of the exits with a block. -/
theorem block {r : Block} (h : Sketch P es b t (c ++ r.exits) blocks r.before) (hr : r.Good) :
    Sketch P es b t (c ++ r.ends) (blocks ++ [r]) r.after := by
  have hf := (hr h.sound_after fun x hx => h.pending x (List.mem_append_right c hx)).toFragment
  have hlt : b.next < r.before.next := by
    rw [← h.number_eq]
    exact h.sound_after.idNumber_lt h.mem
  -- the nodes of the block count as own ones until the block is listed
  let Q : Node → Prop := fun n => P n ∨ n ∈ r.after.nodes ∧ n ∉ r.before.nodes
  have hQ : Sketch Q es b t (c ++ r.exits) blocks r.before :=
    { h with cover := fun n hn => (h.cover n hn).imp id fun hn => hn.imp Or.inl id }
  have hgo : Sketch Q es b t (c ++ r.ends) blocks r.after := hQ.go hf fun n hn => by
    by_cases hold : n ∈ r.before.nodes
    · exact Or.inl hold
    · exact Or.inr (Or.inr ⟨hn, hold⟩)
  refine { hgo with placed := ?_, cover := ?_ }
  · intro r' hr'
    rcases List.mem_append.mp hr' with hr' | hr'
    · exact hgo.placed r' hr'
    obtain rfl := List.mem_singleton.mp hr'
    refine ⟨hlt, h.sound_after, fun x hx => h.pending x (List.mem_append_right c hx),
      h.grows.extends, Extends.refl _, fun d hd => Or.inl hd, fun x hx => ?_⟩
    rcases List.mem_append.mp hx with hx | hx
    · exact Or.inl (Or.inl (h.sound_after.idNumber_lt
        (h.pending x (List.mem_append_left _ hx)).mem_ids))
    · exact Or.inr hx
  · intro n hn
    rcases hgo.cover n hn with hn | (hn | hn) | ⟨r', hr', hn⟩
    · exact Or.inl hn
    · exact Or.inr (Or.inl hn)
    · exact Or.inr (Or.inr ⟨r, by simp, hn⟩)
    · exact Or.inr (Or.inr ⟨r', List.mem_append_left _ hr', hn⟩)

/-- A node that is reached from the start of the statement. -/
theorem spur (h : Sketch P es b t e blocks b₁) {shape : Shape} (text : String) (line : Option Int)
    {label : Option String} (style : EdgeStyle)
    (hshape : shape ∉ [Shape.terminal, .subgraph, .decision]) (hlabel : label ∈ forwardLabels)
    (hP : P (b₁.freshNode shape text line)) :
    Sketch P es b t (e ++ [Exit.plain (b₁.freshId line)]) blocks
      ((b₁.addNode shape text line).2.addEdge t (b₁.freshId line) label style) := by
  have hne : shape ≠ .subgraph := fun heq => hshape (by simp [heq])
  have hadds := Adds.node b₁ shape text line hne
  have hnumber : idNumber (b₁.freshId line) = b₁.next := hadds.number_eq
  have hgrows := Grows.spur h.sound_after h.mem hlabel hne text line style
  refine h.advance ⟨hgrows, ?_, ?_, ?_⟩ (hgrows.leadsOn (List.subset_append_left e _)) ?_
  · intro x hx
    rcases List.mem_append.mp hx with hx | hx
    · exact (h.pending x hx).mono hgrows.nodes_prefix.subset
    · exact pending_spur b₁ t label hshape text line style x hx
  · intro d hd
    refine ((mem_spur_edges h.sound_after h.mem hne text line style).mp hd).imp id ?_
    rintro rfl
    exact ⟨Or.inl (Nat.le_of_eq hnumber.symm), Or.inr (Or.inl rfl)⟩
  · intro x hx
    rcases List.mem_append.mp hx with hx | hx
    · exact Or.inr hx
    · rw [List.mem_singleton.mp hx]
      exact Or.inl (Nat.le_of_eq hnumber.symm)
  · intro n hn
    rw [addEdge_nodes, hadds.mem_iff] at hn
    rcases hn with hn | rfl
    · exact Or.inl hn
    · exact Or.inr hP

/-- The edges back to the head of a loop. -/
theorem back (h : Sketch P es b t e blocks b₁) (hae : a ⊆ e)
    (hloop : ∃ n ∈ b₁.nodes, n.id = t ∧ n.shape = .loop) :
    Sketch P es b t e blocks (b₁.backAll a t) := by
  have hmem : ∀ x ∈ a, x.node ∈ b₁.ids := fun x hx => (h.pending x (hae hx)).mem_ids
  have hgrows : Grows b₁ (b₁.backAll a t) := Grows.backAll hmem hloop fun x hx hne => by
    refine Nat.lt_of_le_of_ne (h.number_eq ▸ h.linked.fresh x (hae hx)) fun heq => hne ?_
    obtain ⟨n, hn, hid⟩ := Builder.mem_ids.mp (hmem x hx)
    obtain ⟨m, hm, hmid, -⟩ := hloop
    rw [← hid, ← hmid, h.sound_after.node_eq hn hm (by rw [hid, hmid, heq])]
  refine h.advance ⟨hgrows, fun x hx => ?_, fun d hd => ?_, fun x hx => Or.inr hx⟩
    (hgrows.leadsOn (List.Subset.refl e)) fun n hn => Or.inl ?_
  · exact (h.pending x hx).mono hgrows.nodes_prefix.subset
  · rw [mem_backAll_edges (fun x hx => h.sound_after.isEmpty_eq_false (hmem x hx))
      (h.sound_after.isEmpty_eq_false h.mem)] at hd
    refine hd.imp id ?_
    rintro ⟨x, hx, -, rfl⟩
    exact ⟨Or.inr rfl, Or.inr (Or.inr ⟨x, hae hx, rfl⟩)⟩
  · rwa [backAll_nodes] at hn

/-- Exits may be dropped as long as control goes on. -/
theorem sub (h : Sketch P es b t e blocks b₁) (he : e' ⊆ e) (hlead : es ≠ [] → LeadsOn b₁ t e') :
    Sketch P es b t e' blocks b₁ := by
  refine { h with pending := fun x hx => h.pending x (he hx), linked := ?_, placed := ?_ }
  · exact ⟨h.linked.source, h.linked.linked, hlead, fun x hx => h.linked.fresh x (he hx)⟩
  · intro r hr
    obtain ⟨hlt, hp⟩ := h.placed r hr
    exact ⟨hlt, hp.sound, hp.pending, hp.entered, hp.framed.keeps, hp.framed.edge,
      fun x hx => hp.framed.exit x (he hx)⟩

/-- The order of the exits does not matter. -/
theorem congr (h : Sketch P es b t e blocks b₁) (he : ∀ x, x ∈ e' ↔ x ∈ e) :
    Sketch P es b t e' blocks b₁ :=
  h.sub (fun x hx => (he x).mp hx) fun hne => (h.linked.leads hne).mono (List.Subset.refl _)
    (List.Subset.refl _) fun x hx => (he x).mpr hx

end Sketch

end Flowchart
