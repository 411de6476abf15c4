import Flowchart.Proofs.Drawing.Layout

/-!
# Two drawings in step

The same drawing can be done in two builders that have nothing in common but their mode and their
limit. A `Renaming` says which places of the one correspond to which places of the other; at the
start these are the places to go on from (`Twins`), and every new node adds one pair.

`Twins.Drawn` is what holds of the two builders as long as both have done the same: what they have
added corresponds, node by node and edge by edge. `Twins.Lockstep` says that two computations keep
this; it comes with a rule for each thing that a drawing does, and one for doing things in
sequence (`Lockstep.bind`). An edge that is there already is not added again, so the rule for edges
needs that a renaming is one to one and that edges lead to new nodes alone.

## Renamings that grow

The two builders number their nodes differently, so a renaming is a list of pairs, and it grows by one
pair with each new node. All relations between the two sides hold for a longer renaming if they hold for
a shorter one, and `Lockstep` says that there is a longer one at the end. Whether an edge is there
already is asked of both builders, and the answers have to be the same: this is where a renaming that is
one to one is needed (`Edge.Alike.mem_iff`).

## Main results

* `OneToOne.concat`: a new pair of places keeps a renaming one to one.
* `Drawn.addEdge`, `Drawn.linkAll`, `Drawn.backAll`, `Drawn.append`: what both builders add
  corresponds.
* `Lockstep.bind`: computations that keep in step do so in sequence.
* `lockstep_node`, `lockstep_nodeAfter`, `lockstep_merge`: so do the steps of a drawing.
-/

namespace Flowchart

open Builder

/-! ### Renamings -/

/-- Pairs of places: the first in the one builder is the second in the other. -/
abbrev Renaming := List (String × String)

namespace Renaming

/-- No place corresponds to two. -/
def OneToOne (ρ : Renaming) : Prop := ∀ p ∈ ρ, ∀ q ∈ ρ, p.1 = q.1 ↔ p.2 = q.2

/-- Nodes in their order. -/
def ofNodes (N N' : List Node) : Renaming := (N.map (·.id)).zip (N'.map (·.id))

/-- Sources of exits in their order. -/
def ofExits (es es' : List Exit) : Renaming := (es.map (·.node)).zip (es'.map (·.node))

/-- A new node on either side adds one pair. -/
theorem ofNodes_concat {N N' : List Node} (h : N.length = N'.length) (n n' : Node) :
    ofNodes (N ++ [n]) (N' ++ [n']) = ofNodes N N' ++ [(n.id, n'.id)] := by
  rw [ofNodes, List.map_append, List.map_append, List.zip_append (by simpa using h)]
  rfl

/-- One more pair of places that were in no pair before. -/
theorem OneToOne.concat {ρ : Renaming} (h : ρ.OneToOne) {x x' : String} (hx : ∀ p ∈ ρ, p.1 ≠ x)
    (hx' : ∀ p ∈ ρ, p.2 ≠ x') : OneToOne (ρ ++ [(x, x')]) := by
  intro p hp q hq
  rw [List.mem_append, List.mem_singleton] at hp hq
  rcases hp with hp | rfl <;> rcases hq with hq | rfl
  · exact h p hp q hq
  · exact iff_of_false (hx p hp) (hx' p hp)
  · exact iff_of_false (hx q hq).symm (hx' q hq).symm
  · exact iff_of_true rfl rfl

end Renaming

/-- Parents that correspond: the scopes in which the drawings started, or a pair. -/
def ParentsAlike (ρ : Renaming) (outer outer' parent parent' : Option String) : Prop :=
  parent = outer ∧ parent' = outer' ∨ ∃ p ∈ ρ, parent = some p.1 ∧ parent' = some p.2

/-- Nodes that are the same but for their names. -/
structure Node.Alike (ρ : Renaming) (outer outer' : Option String) (n n' : Node) : Prop where
  id : (n.id, n'.id) ∈ ρ
  shape : n'.shape = n.shape
  label : n'.label = n.label
  line : n'.line = n.line
  raw : n'.raw = n.raw
  parent : ParentsAlike ρ outer outer' n.parent n'.parent

/-- Edges that are the same but for the names of their ends. -/
structure Edge.Alike (ρ : Renaming) (d d' : Edge) : Prop where
  source : (d.source, d'.source) ∈ ρ
  target : (d.target, d'.target) ∈ ρ
  label : d'.label = d.label
  style : d'.style = d.style

/-- Exits that are the same but for their places. -/
structure Exit.Alike (ρ : Renaming) (x x' : Exit) : Prop where
  node : (x.node, x'.node) ∈ ρ
  label : x'.label = x.label
  style : x'.style = x.style

section Mono
variable {ρ ρ' : Renaming} (hρ : ρ ⊆ ρ')
include hρ

/-- Parents that correspond do so in a longer renaming. -/
theorem ParentsAlike.mono {o o' p p' : Option String} (h : ParentsAlike ρ o o' p p') :
    ParentsAlike ρ' o o' p p' :=
  h.imp id fun ⟨q, hq, hp⟩ => ⟨q, hρ hq, hp⟩

/-- Nodes that correspond do so in a longer renaming. -/
theorem Node.Alike.mono {o o' : Option String} {n n' : Node} (h : n.Alike ρ o o' n') :
    n.Alike ρ' o o' n' := { h with id := hρ h.id, parent := h.parent.mono hρ }

/-- Edges that correspond do so in a longer renaming. -/
theorem Edge.Alike.mono {d d' : Edge} (h : d.Alike ρ d') : d.Alike ρ' d' :=
  { h with source := hρ h.source, target := hρ h.target }

/-- Exits that correspond do so in a longer renaming. -/
theorem Exit.Alike.mono {x x' : Exit} (h : x.Alike ρ x') : x.Alike ρ' x' :=
  { h with node := hρ h.node }

end Mono

/-- Exits that correspond one by one. -/
def ExitsAlike (ρ : Renaming) (es es' : List Exit) : Prop := List.Forall₂ (Exit.Alike ρ) es es'

namespace ExitsAlike

variable {ρ ρ' : Renaming} {es es' a a' : List Exit}

/-- Exits that correspond in their order do so in a longer renaming. -/
theorem mono (hρ : ρ ⊆ ρ') (h : ExitsAlike ρ es es') : ExitsAlike ρ' es es' :=
  List.Forall₂.imp (fun _ _ hx => hx.mono hρ) h

/-- Exits that correspond in two parts correspond together. -/
theorem append (h : ExitsAlike ρ es es') (ha : ExitsAlike ρ a a') :
    ExitsAlike ρ (es ++ a) (es' ++ a') := List.rel_append h ha

/-- Of two lists of exits in step none is empty alone. -/
theorem isEmpty_eq (h : ExitsAlike ρ es es') : es'.isEmpty = es.isEmpty := by
  cases h <;> rfl

end ExitsAlike

/-- Of edges that correspond one by one, a given one is among the first if the one that corresponds
to it is among the second. -/
theorem Edge.Alike.mem_iff {ρ : Renaming} (hρ : ρ.OneToOne) {e e' : Edge} (he : e.Alike ρ e')
    {E E' : List Edge} (h : List.Forall₂ (Edge.Alike ρ) E E') : e ∈ E ↔ e' ∈ E' := by
  induction h with
  | nil => exact iff_of_false List.not_mem_nil List.not_mem_nil
  | @cons d d' E E' hd _ ih =>
      have hsource := hρ _ he.source _ hd.source
      have htarget := hρ _ he.target _ hd.target
      have heq : e = d ↔ e' = d' := by
        cases e; cases e'; cases d; cases d'
        obtain ⟨-, -, hlabel, hstyle⟩ := he
        obtain ⟨-, -, hlabel', hstyle'⟩ := hd
        simp_all
      rw [List.mem_cons, List.mem_cons, heq, ih]

namespace Builder

variable {b : Builder} {source target : String} {text : Option String} {style : EdgeStyle}

/-- An edge that is there is not added again. -/
theorem addEdge_edges_of_mem (h : (⟨source, target, b.edgeLabel text, style⟩ : Edge) ∈ b.edges) :
    (b.addEdge source target text style).edges = b.edges :=
  (addEdge_edges_eq b source target text style).resolve_right fun hnew => hnew.1 h

/-- An edge that is not there is added at the end. -/
theorem Sound.addEdge_edges_of_notMem (hb : b.Sound) (hs : source ∈ b.ids) (ht : target ∈ b.ids)
    (h : (⟨source, target, b.edgeLabel text, style⟩ : Edge) ∉ b.edges) :
    (b.addEdge source target text style).edges =
      b.edges ++ [⟨source, target, b.edgeLabel text, style⟩] := by
  refine ((addEdge_edges_eq b source target text style).resolve_left fun hsame => h ?_).2
  rw [← hsame, mem_addEdge_edges (hb.isEmpty_eq_false hs) (hb.isEmpty_eq_false ht)]
  exact Or.inr rfl

/-- Edges to a node open and close no scope. -/
@[simp] theorem linkAll_scopes (b : Builder) (es : List Exit) (t : String) :
    (b.linkAll es t).scopes = b.scopes := by
  induction es generalizing b with
  | nil => rfl
  | cons x es ih => rw [linkAll_cons, ih, addEdge_scopes]

/-- Edges back to a head open and close no scope. -/
@[simp] theorem backAll_scopes (b : Builder) (es : List Exit) (head : String) :
    (b.backAll es head).scopes = b.scopes := by
  induction es generalizing b with
  | nil => rfl
  | cons x es ih =>
      rw [backAll_cons, ih]
      split_ifs
      · rfl
      · rw [addEdge_scopes]

end Builder

/-- What a builder adds to another one: nodes and edges. -/
structure Builder.Appends (b c : Builder) (N : List Node) (E : List Edge) : Prop where
  nodes_eq : c.nodes = b.nodes ++ N
  edges_eq : c.edges = b.edges ++ E
  styles_eq : c.styles = b.styles

/-- `d` is `c` with the node `n`, made in the innermost open scope. -/
structure Builder.Gains (c : Builder) (n : Node) (d : Builder) : Prop where
  sound : c.Sound → d.Sound
  nodes_eq : d.nodes = c.nodes ++ [n]
  edges_eq : d.edges = c.edges
  styles_eq : d.styles = c.styles
  mode_eq : d.mode = c.mode
  limit_eq : d.limit = c.limit
  parent_eq : n.parent = c.scopes.head?

namespace Builder.Gains

variable {c d : Builder} {n : Node}

/-- A new node is gained. -/
theorem node (c : Builder) (shape : Shape) (text : String) (line : Option Int) :
    c.Gains (c.freshNode shape text line) (c.addNode shape text line).2 :=
  ⟨fun h => h.addNode shape text line IdFamily.proper_line, rfl, rfl, rfl, rfl, rfl, rfl⟩

/-- A merge point is gained. -/
theorem merge (c : Builder) : c.Gains c.mergeNode c.addMerge.2 :=
  ⟨Sound.addMerge, rfl, rfl, rfl, rfl, rfl, rfl⟩

/-- A subgraph is gained when it is opened. -/
theorem scope (c : Builder) (text : String) (line : Option Int) :
    c.Gains (c.scopeNode text line) (c.openSubgraph text line).2 :=
  ⟨fun h => h.openSubgraph text line, rfl, rfl, rfl, rfl, rfl, rfl⟩

/-- With a node its id is gained, and no other. -/
theorem ids_eq (h : c.Gains n d) : d.ids = c.ids ++ [n.id] := by
  rw [ids, h.nodes_eq, List.map_append]
  rfl

/-- The id of a node that is gained is in use. -/
theorem mem_ids (h : c.Gains n d) : n.id ∈ d.ids := by simp [h.ids_eq]

/-- Ids stay in use when a node is gained. -/
theorem subset_ids (h : c.Gains n d) : c.ids ⊆ d.ids := by
  rw [h.ids_eq]
  exact List.subset_append_left _ _

/-- The id of the node is new. -/
theorem not_mem_ids (h : c.Gains n d) (hc : c.Sound) : n.id ∉ c.ids := by
  have hnodup := (h.sound hc).nodup_ids
  rw [h.ids_eq] at hnodup
  exact fun hmem => List.disjoint_of_nodup_append hnodup hmem (List.mem_singleton_self _)

end Builder.Gains

/-- Two builders in which to do the same drawing, and the places to go on from in each. -/
structure Twins where
  one : Builder
  two : Builder
  known : Renaming
  one_sound : one.Sound
  two_sound : two.Sound
  mode_eq : two.mode = one.mode
  limit_eq : two.limit = one.limit
  oneToOne : known.OneToOne
  mem_ids : ∀ p ∈ known, p.1 ∈ one.ids ∧ p.2 ∈ two.ids

namespace Twins

variable (T : Twins)

/-- Both builders have done the same since the start, so that `ρ` is how they correspond. -/
structure Drawn (ρ : Renaming) (c c' : Builder) : Prop where
  sound : c.Sound
  sound' : c'.Sound
  mode_eq : c'.mode = c.mode
  limit_eq : c'.limit = c.limit
  oneToOne : ρ.OneToOne
  mem_ids : ∀ p ∈ ρ, p.1 ∈ c.ids ∧ p.2 ∈ c'.ids
  scopes : ParentsAlike ρ T.one.scopes.head? T.two.scopes.head? c.scopes.head? c'.scopes.head?
  added : ∃ N N' E E', T.one.Appends c N E ∧ T.two.Appends c' N' E' ∧
    ρ = T.known ++ Renaming.ofNodes N N' ∧
    List.Forall₂ (Node.Alike ρ T.one.scopes.head? T.two.scopes.head?) N N' ∧
    List.Forall₂ (Edge.Alike ρ) E E'

/-- A pair of nodes that both have been added since the start. -/
structure New (ρ : Renaming) (n n' : String) : Prop where
  mem : (n, n') ∈ ρ
  not_mem : n ∉ T.one.ids
  not_mem' : n' ∉ T.two.ids

variable {T} {ρ ρ' : Renaming} {c c' d d' : Builder}

/-- What is new stays new in a longer renaming. -/
theorem New.mono {n n' : String} (hρ : ρ ⊆ ρ') (h : T.New ρ n n') : T.New ρ' n n' :=
  { h with mem := hρ h.mem }

namespace Drawn

/-- At the start nothing has been added. -/
theorem start : T.Drawn T.known T.one T.two where
  sound := T.one_sound
  sound' := T.two_sound
  mode_eq := T.mode_eq
  limit_eq := T.limit_eq
  oneToOne := T.oneToOne
  mem_ids := T.mem_ids
  scopes := Or.inl ⟨rfl, rfl⟩
  added := by
    refine ⟨[], [], [], [], ⟨?_, ?_, rfl⟩, ⟨?_, ?_, rfl⟩, ?_, .nil, .nil⟩ <;>
      simp [Renaming.ofNodes]

/-- Both make the same labels. -/
theorem label_eq (h : T.Drawn ρ c c') (text : String) : c'.label text = c.label text := by
  rw [label, label, h.mode_eq, h.limit_eq]

/-- As many nodes have been added to the one as to the other. -/
theorem length_eq (h : T.Drawn ρ c c') : ∃ k, c.nodes.length = T.one.nodes.length + k ∧
    c'.nodes.length = T.two.nodes.length + k := by
  obtain ⟨N, N', E, E', hone, htwo, -, hnodes, -⟩ := h.added
  refine ⟨N.length, ?_, ?_⟩
  · rw [hone.nodes_eq, List.length_append]
  · rw [htwo.nodes_eq, List.length_append, hnodes.length_eq]

/-- The next node in each builder makes one more pair. -/
theorem append (h : T.Drawn ρ c c') {n n' : Node} (hn : c.Gains n d) (hn' : c'.Gains n' d')
    (hshape : n'.shape = n.shape) (hlabel : n'.label = n.label) (hline : n'.line = n.line)
    (hraw : n'.raw = n.raw)
    (hscopes : ParentsAlike (ρ ++ [(n.id, n'.id)]) T.one.scopes.head? T.two.scopes.head?
      d.scopes.head? d'.scopes.head?) :
    T.Drawn (ρ ++ [(n.id, n'.id)]) d d' ∧ T.New (ρ ++ [(n.id, n'.id)]) n.id n'.id := by
  have hd := hn.sound h.sound
  have hd' := hn'.sound h.sound'
  have hfresh := hn.not_mem_ids h.sound
  have hfresh' := hn'.not_mem_ids h.sound'
  have hsub : ρ ⊆ ρ ++ [(n.id, n'.id)] := List.subset_append_left ρ _
  have hlast : (n.id, n'.id) ∈ ρ ++ [(n.id, n'.id)] :=
    List.mem_append_right ρ (List.mem_singleton_self _)
  obtain ⟨N, N', E, E', hone, htwo, hρ, hnodes, hedges⟩ := h.added
  have hold : ∀ id ∈ T.one.ids, id ∈ c.ids := by
    intro id hid
    rw [ids, hone.nodes_eq, List.map_append]
    exact List.mem_append_left _ hid
  have hold' : ∀ id ∈ T.two.ids, id ∈ c'.ids := by
    intro id hid
    rw [ids, htwo.nodes_eq, List.map_append]
    exact List.mem_append_left _ hid
  refine ⟨⟨hd, hd', ?_, ?_, ?_, ?_, hscopes, N ++ [n], N' ++ [n'], E, E', ?_, ?_, ?_, ?_, ?_⟩,
    ⟨hlast, fun hmem => hfresh (hold _ hmem), fun hmem => hfresh' (hold' _ hmem)⟩⟩
  · rw [hn.mode_eq, hn'.mode_eq, h.mode_eq]
  · rw [hn.limit_eq, hn'.limit_eq, h.limit_eq]
  · refine h.oneToOne.concat (fun p hp heq => hfresh ?_) fun p hp heq => hfresh' ?_
    · exact heq ▸ (h.mem_ids p hp).1
    · exact heq ▸ (h.mem_ids p hp).2
  · intro p hp
    rcases List.mem_append.mp hp with hp | hp
    · exact ⟨hn.subset_ids (h.mem_ids p hp).1, hn'.subset_ids (h.mem_ids p hp).2⟩
    · rw [List.mem_singleton.mp hp]
      exact ⟨hn.mem_ids, hn'.mem_ids⟩
  · exact ⟨by rw [hn.nodes_eq, hone.nodes_eq, List.append_assoc], hn.edges_eq.trans hone.edges_eq,
      hn.styles_eq.trans hone.styles_eq⟩
  · exact ⟨by rw [hn'.nodes_eq, htwo.nodes_eq, List.append_assoc],
      hn'.edges_eq.trans htwo.edges_eq, hn'.styles_eq.trans htwo.styles_eq⟩
  · rw [hρ, Renaming.ofNodes_concat hnodes.length_eq, List.append_assoc]
  · refine List.rel_append (hnodes.imp fun _ _ hm => hm.mono hsub) (.cons ?_ .nil)
    refine ⟨hlast, hshape, hlabel, hline, hraw, ?_⟩
    rw [hn.parent_eq, hn'.parent_eq]
    exact h.scopes.mono hsub
  · exact hedges.imp fun _ _ hm => hm.mono hsub

/-- Of two edges to new nodes that correspond, both builders have theirs or none does: an edge that
was there at the start leads to an old node. -/
theorem mem_edges_iff (h : T.Drawn ρ c c') {e e' : Edge} (he : e.Alike ρ e')
    (ht : T.New ρ e.target e'.target) : e ∈ c.edges ↔ e' ∈ c'.edges := by
  obtain ⟨N, N', E, E', hone, htwo, -, -, hedges⟩ := h.added
  have hold : e ∉ T.one.edges := fun hmem => ht.not_mem (T.one_sound.target_mem e hmem)
  have hold' : e' ∉ T.two.edges := fun hmem => ht.not_mem' (T.two_sound.target_mem e' hmem)
  rw [hone.edges_eq, htwo.edges_eq, List.mem_append, List.mem_append, or_iff_right hold,
    or_iff_right hold']
  exact Edge.Alike.mem_iff h.oneToOne he hedges

/-- An edge to a new node is added to both builders or to none. -/
theorem addEdge (h : T.Drawn ρ c c') {s s' t t' : String} (hs : (s, s') ∈ ρ) (ht : T.New ρ t t')
    (text : Option String) (style : EdgeStyle) :
    T.Drawn ρ (c.addEdge s t text style) (c'.addEdge s' t' text style) := by
  obtain ⟨N, N', E, E', hone, htwo, hρ, hnodes, hedges⟩ := h.added
  have hlabel : c'.edgeLabel text = c.edgeLabel text := edgeLabel_congr h.mode_eq h.limit_eq text
  let e : Edge := ⟨s, t, c.edgeLabel text, style⟩
  let e' : Edge := ⟨s', t', c'.edgeLabel text, style⟩
  have halike : e.Alike ρ e' := ⟨hs, ht.mem, hlabel, rfl⟩
  have hmem : e ∈ c.edges ↔ e' ∈ c'.edges := h.mem_edges_iff halike ht
  obtain ⟨hs₁, hs₂⟩ := h.mem_ids _ hs
  obtain ⟨ht₁, ht₂⟩ := h.mem_ids _ ht.mem
  have hsound := h.sound.addEdge hs₁ ht₁ text style
  have hsound' := h.sound'.addEdge hs₂ ht₂ text style
  have hadded : ∃ E₁ E₁', (c.addEdge s t text style).edges = T.one.edges ++ E₁ ∧
      (c'.addEdge s' t' text style).edges = T.two.edges ++ E₁' ∧
      List.Forall₂ (Edge.Alike ρ) E₁ E₁' := by
    by_cases he : e ∈ c.edges
    · refine ⟨E, E', ?_, ?_, hedges⟩
      · rw [addEdge_edges_of_mem he, hone.edges_eq]
      · rw [addEdge_edges_of_mem (hmem.mp he), htwo.edges_eq]
    · refine ⟨E ++ [e], E' ++ [e'], ?_, ?_, List.rel_append hedges (.cons halike .nil)⟩
      · rw [h.sound.addEdge_edges_of_notMem hs₁ ht₁ he, hone.edges_eq, List.append_assoc]
      · rw [h.sound'.addEdge_edges_of_notMem hs₂ ht₂ (mt hmem.mpr he), htwo.edges_eq,
          List.append_assoc]
  obtain ⟨E₁, E₁', hE₁, hE₁', hedges'⟩ := hadded
  refine ⟨hsound, hsound', ?_, ?_, h.oneToOne, ?_, ?_, N, N', E₁, E₁', ?_, ?_, hρ, hnodes, hedges'⟩
  · simpa using h.mode_eq
  · simpa using h.limit_eq
  · simpa using h.mem_ids
  · simpa using h.scopes
  · exact ⟨by rw [addEdge_nodes, hone.nodes_eq], hE₁, by rw [addEdge_styles, hone.styles_eq]⟩
  · exact ⟨by rw [addEdge_nodes, htwo.nodes_eq], hE₁', by rw [addEdge_styles, htwo.styles_eq]⟩

/-- Edges from exits to a new node. -/
theorem linkAll (h : T.Drawn ρ c c') {es es' : List Exit} {t t' : String}
    (hes : ExitsAlike ρ es es') (ht : T.New ρ t t') :
    T.Drawn ρ (c.linkAll es t) (c'.linkAll es' t') := by
  induction hes generalizing c c' with
  | nil => exact h
  | @cons x x' es es' hx _ ih =>
      rw [linkAll_cons, linkAll_cons, hx.label, hx.style]
      exact ih (h.addEdge hx.node ht x.label x.style)

/-- Edges from exits back to a new node; an exit of that node has none in both builders. -/
theorem backAll (h : T.Drawn ρ c c') {es es' : List Exit} {t t' : String}
    (hes : ExitsAlike ρ es es') (ht : T.New ρ t t') :
    T.Drawn ρ (c.backAll es t) (c'.backAll es' t') := by
  induction hes generalizing c c' with
  | nil => exact h
  | @cons x x' es es' hx _ ih =>
      have hhead : x.node = t ↔ x'.node = t' := h.oneToOne _ hx.node _ ht.mem
      rw [backAll_cons, backAll_cons, hx.style]
      by_cases hself : x.node = t
      · rw [if_pos hself, if_pos (hhead.mp hself)]
        exact ih h
      · rw [if_neg hself, if_neg (mt hhead.mpr hself)]
        exact ih (h.addEdge hx.node ht _ _)

/-- A subgraph is closed in both builders. -/
theorem closeSubgraph (h : T.Drawn ρ c c')
    (hscopes : ParentsAlike ρ T.one.scopes.head? T.two.scopes.head?
      c.closeSubgraph.scopes.head? c'.closeSubgraph.scopes.head?) :
    T.Drawn ρ c.closeSubgraph c'.closeSubgraph := by
  obtain ⟨N, N', E, E', hone, htwo, hadded⟩ := h.added
  exact ⟨h.sound.closeSubgraph, h.sound'.closeSubgraph, h.mode_eq, h.limit_eq, h.oneToOne,
    h.mem_ids, hscopes, N, N', E, E', ⟨hone.nodes_eq, hone.edges_eq, hone.styles_eq⟩,
    ⟨htwo.nodes_eq, htwo.edges_eq, htwo.styles_eq⟩, hadded⟩

end Drawn

/-! ### Computations in step -/

variable (T) in
/-- Two computations that keep the builders in step, leave the scopes open that are open, and give
results that are `Q`. -/
def Lockstep {α : Type} (ρ : Renaming) (m m' : Drawing α) (Q : Renaming → α → α → Prop) : Prop :=
  ∀ c c', T.Drawn ρ c c' → ∃ ρ', ρ ⊆ ρ' ∧ T.Drawn ρ' (m c).2 (m' c').2 ∧
    (m c).2.scopes = c.scopes ∧ (m' c').2.scopes = c'.scopes ∧ Q ρ' (m c).1 (m' c').1

/-- One exit from nodes that correspond. -/
theorem New.exit {n n' : String} (h : T.New ρ n n') (label : Option String) (style : EdgeStyle) :
    ExitsAlike ρ [⟨n, label, style⟩] [⟨n', label, style⟩] := .cons ⟨h.mem, rfl, rfl⟩ .nil

namespace Lockstep

variable {α β : Type} {Q : Renaming → α → α → Prop} {R : Renaming → β → β → Prop}

/-- Results that correspond without drawing anything. -/
theorem pure {a a' : α} (h : Q ρ a a') : T.Lockstep ρ (Pure.pure a) (Pure.pure a') Q :=
  fun _ _ hc => ⟨ρ, List.Subset.refl ρ, hc, rfl, rfl, h⟩

/-- What comes next may use that the renaming has grown only. -/
theorem bind {m m' : Drawing α} {f f' : α → Drawing β} (h : T.Lockstep ρ m m' Q)
    (hf : ∀ {ρ' a a'}, ρ ⊆ ρ' → Q ρ' a a' → T.Lockstep ρ' (f a) (f' a') R) :
    T.Lockstep ρ (m >>= f) (m' >>= f') R := by
  intro c c' hc
  obtain ⟨ρ₁, hρ₁, hdrawn₁, hs₁, hs₁', hQ⟩ := h c c' hc
  obtain ⟨ρ₂, hρ₂, hdrawn₂, hs₂, hs₂', hR⟩ := hf hρ₁ hQ _ _ hdrawn₁
  exact ⟨ρ₂, List.Subset.trans hρ₁ hρ₂, hdrawn₂, hs₂.trans hs₁, hs₂'.trans hs₁', hR⟩

/-- Both take the same way at a choice. -/
theorem ite {p p' : Prop} [Decidable p] [Decidable p'] (hp : p ↔ p') {m m' k k' : Drawing α}
    (h : T.Lockstep ρ m m' Q) (h' : T.Lockstep ρ k k' Q) :
    T.Lockstep ρ (if p then m else k) (if p' then m' else k') Q := by
  by_cases hc : p
  · rw [if_pos hc, if_pos (hp.mp hc)]
    exact h
  · rw [if_neg hc, if_neg (mt hp.mpr hc)]
    exact h'

end Lockstep

/-! ### What a drawing does -/

open Drawing

/-- A node that nothing leads to yet. -/
theorem lockstep_node (shape : Shape) (text : String) (line : Option Int) :
    T.Lockstep ρ (node shape text line) (node shape text line) T.New := by
  intro c c' hc
  obtain ⟨hdrawn, hnew⟩ := hc.append (Gains.node c shape text line)
    (Gains.node c' shape text line) rfl (hc.label_eq text) rfl rfl
    (hc.scopes.mono (List.subset_append_left _ _))
  exact ⟨_, List.subset_append_left _ _, hdrawn, rfl, rfl, hnew⟩

/-- Edges from places that correspond to new ones keep in step. -/
theorem lockstep_edge {s s' t t' : String} (hs : (s, s') ∈ ρ) (ht : T.New ρ t t')
    (text : Option String) (style : EdgeStyle) :
    T.Lockstep ρ (edge s t text style) (edge s' t' text style) fun _ _ _ => True :=
  fun _ _ hc => ⟨ρ, List.Subset.refl ρ, hc.addEdge hs ht text style, addEdge_scopes ..,
    addEdge_scopes .., trivial⟩

/-- Edges from exits that correspond to new places keep in step. -/
theorem lockstep_link {es es' : List Exit} {t t' : String} (hes : ExitsAlike ρ es es')
    (ht : T.New ρ t t') : T.Lockstep ρ (link es t) (link es' t') fun _ _ _ => True :=
  fun c c' hc => ⟨ρ, List.Subset.refl ρ, hc.linkAll hes ht, linkAll_scopes c es t,
    linkAll_scopes c' es' t', trivial⟩

/-- A node that the exits lead to. -/
theorem lockstep_nodeAfter {es es' : List Exit} (hes : ExitsAlike ρ es es') (shape : Shape)
    (text : String) (line : Option Int) :
    T.Lockstep ρ (nodeAfter es shape text line) (nodeAfter es' shape text line) T.New :=
  (lockstep_node shape text line).bind fun hρ hn =>
    (lockstep_link (hes.mono hρ) hn).bind fun hρ' _ => .pure (hn.mono hρ')

/-- A merge point is drawn in both builders or in none. -/
theorem lockstep_merge {es es' : List Exit} (hes : ExitsAlike ρ es es') :
    T.Lockstep ρ (merge es) (merge es') ExitsAlike := by
  have hpoint : T.Lockstep ρ (fun b => b.addMerge : Drawing String) (fun b => b.addMerge)
      T.New := by
    intro c c' hc
    obtain ⟨hdrawn, hnew⟩ := hc.append (Gains.merge c) (Gains.merge c') rfl rfl rfl rfl
      (hc.scopes.mono (List.subset_append_left _ _))
    exact ⟨_, List.subset_append_left _ _, hdrawn, rfl, rfl, hnew⟩
  rw [merge, merge]
  refine .ite (by rw [hes.isEmpty_eq]) (.pure .nil) ?_
  exact hpoint.bind fun hρ hm => (lockstep_link (hes.mono hρ) hm).bind fun hρ' _ =>
    .pure ((hm.mono hρ').exit none .solid)

/-- So do edges back to new heads. -/
theorem lockstep_repeatTo {es es' : List Exit} {t t' : String} (hes : ExitsAlike ρ es es')
    (ht : T.New ρ t t') : T.Lockstep ρ (repeatTo t es) (repeatTo t' es') fun _ _ _ => True :=
  fun c c' hc => ⟨ρ, List.Subset.refl ρ, hc.backAll hes ht, backAll_scopes c es t,
    backAll_scopes c' es' t', trivial⟩

end Twins

end Flowchart
