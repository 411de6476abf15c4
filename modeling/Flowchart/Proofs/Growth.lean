import Flowchart.Proofs.Identifier
import Mathlib.Data.List.Nodup
import Mathlib.Tactic.SplitIfs

/-!
# Growth of a graph under construction

`Builder.Grows b b'` says that `b'` comes out of `b` by drawing: nodes, merge points, edges and
style entries are added, and subgraphs are opened, filled and closed again. Its constructors say
once what a single addition may do:

* an edge forward leads from an earlier node to a later one and carries no label, or one of `Yes`,
  `No` and `Exception`;
* an edge back leads from a later node to the head of a loop and is labelled `Repeat`;
* a subgraph is closed only when it holds something.

`Builder.Sound` is the invariant of builders that are grown from an empty one: ids are numbered in
the order of the nodes, edges and styles refer to nodes that are there, no edge is there twice,
and a parent is a subgraph drawn before. `Grows.sound` says that growth keeps it.

## Two relations

`Grows` is for builders that are drawn with: its constructors hold the side conditions that the
drawing of a program respects, so that an invariant is checked once for each of them. `Extends` asks
nothing of what is added but that nodes and edges come behind those that are there and that mode and
limit stay. It holds for a builder in whatever state, also across the opening of a subgraph, and is
what statements about single pieces of a drawing start from.

## Main results

* `Builder.Grows.sound`: growth keeps the invariant.
* `Builder.Grows.scopes_eq`: whatever is opened in the course of a growth is closed again.
* `Builder.Grows.extends`: growth is an extension.
-/

namespace Flowchart

namespace Builder

/-! ### What the operations do to the fields -/

/-- The ids of the nodes drawn so far. -/
def ids (b : Builder) : List String := b.nodes.map (·.id)

/-- The ids of a builder are those of its nodes. -/
theorem mem_ids {b : Builder} {id : String} : id ∈ b.ids ↔ ∃ n ∈ b.nodes, n.id = id := by
  simp [ids]

/-- A node is added at the end, within the scope that was opened last. -/
@[simp] theorem addNode_nodes (b : Builder) (shape : Shape) (text : String) (line : Option Int)
    (family : IdFamily) : (b.addNode shape text line family).2.nodes = b.nodes ++
      [⟨idOf family line b.next, shape, b.label text, line, b.scopes.head?, text⟩] := rfl

/-- A merge point is added like a node, and it shows no text. -/
@[simp] theorem addMerge_nodes (b : Builder) : b.addMerge.2.nodes = b.nodes ++
    [⟨idOf (.named "M") none b.next, .merge, "", none, b.scopes.head?, ""⟩] := rfl

/-- A subgraph is itself a node, within the scope that was open before it. -/
@[simp] theorem openSubgraph_nodes (b : Builder) (text : String) (line : Option Int) :
    (b.openSubgraph text line).2.nodes = b.nodes ++
      [⟨idOf (.named "S") none b.next, .subgraph, b.label text, line, b.scopes.head?, text⟩] := rfl

/-- Closing a subgraph draws no node. -/
@[simp] theorem closeSubgraph_nodes (b : Builder) : b.closeSubgraph.nodes = b.nodes := rfl

/-- Closing a subgraph draws no edge. -/
@[simp] theorem closeSubgraph_edges (b : Builder) : b.closeSubgraph.edges = b.edges := rfl

/-- Closing a subgraph goes back to the scope around it. -/
@[simp] theorem closeSubgraph_scopes (b : Builder) : b.closeSubgraph.scopes = b.scopes.tail := rfl

section AddEdge
variable (b : Builder) (source target : String) (text : Option String) (style : EdgeStyle)

/-- An edge leaves everything as it is but the edges and the number of labels. -/
theorem addEdge_eq : b.addEdge source target text style = { b with
    edges := (b.addEdge source target text style).edges
    labelled := (b.addEdge source target text style).labelled } := by
  simp only [addEdge]
  split_ifs <;> rfl

/-- An edge adds no node. -/
@[simp] theorem addEdge_nodes : (b.addEdge source target text style).nodes = b.nodes := by
  rw [addEdge_eq]

/-- An edge adds no style. -/
@[simp] theorem addEdge_styles : (b.addEdge source target text style).styles = b.styles := by
  rw [addEdge_eq]

/-- An edge takes no number. -/
@[simp] theorem addEdge_next : (b.addEdge source target text style).next = b.next := by
  rw [addEdge_eq]

/-- An edge opens and closes no scope. -/
@[simp] theorem addEdge_scopes : (b.addEdge source target text style).scopes = b.scopes := by
  rw [addEdge_eq]

/-- An edge leaves the mode of labels as it is. -/
@[simp] theorem addEdge_mode : (b.addEdge source target text style).mode = b.mode := by
  rw [addEdge_eq]

/-- An edge leaves the limit of labels as it is. -/
@[simp] theorem addEdge_limit : (b.addEdge source target text style).limit = b.limit := by
  rw [addEdge_eq]

/-- An edge adds no id. -/
@[simp] theorem addEdge_ids : (b.addEdge source target text style).ids = b.ids := by
  simp [ids]

/-- The edges stay, and at most one comes after them: one that was not there. -/
theorem addEdge_edges_eq : (b.addEdge source target text style).edges = b.edges ∨
    (⟨source, target, b.edgeLabel text, style⟩ : Edge) ∉ b.edges ∧
      (b.addEdge source target text style).edges =
        b.edges ++ [⟨source, target, b.edgeLabel text, style⟩] := by
  simp only [addEdge]
  generalize (if (b.edgeLabel text).isSome = true then 1 else 0) = k
  split_ifs with h₁ h₂
  · exact Or.inl rfl
  · exact Or.inl rfl
  · refine Or.inr ⟨fun hmem => h₂ ?_, rfl⟩
    exact List.contains_iff_mem.mpr hmem

/-- The edges before stay, and in front, whether the edge was drawn already or not. -/
theorem addEdge_edges_prefix : b.edges <+: (b.addEdge source target text style).edges := by
  rcases addEdge_edges_eq b source target text style with h | ⟨-, h⟩
  · exact ⟨[], by rw [h, List.append_nil]⟩
  · exact ⟨_, h.symm⟩

/-- Between two ids the edge is there afterwards, and nothing else is new. -/
theorem mem_addEdge_edges {b : Builder} {source target : String} {text : Option String}
    {style : EdgeStyle} (hs : source.isEmpty = false) (ht : target.isEmpty = false) {e : Edge} :
    e ∈ (b.addEdge source target text style).edges ↔
      e ∈ b.edges ∨ e = ⟨source, target, b.edgeLabel text, style⟩ := by
  simp only [addEdge, hs, ht, Bool.or_self, Bool.false_eq_true, if_false]
  generalize (if (b.edgeLabel text).isSome = true then 1 else 0) = k
  split_ifs with hmem
  · have hin := List.contains_iff_mem.mp hmem
    refine ⟨Or.inl, fun h => h.elim id ?_⟩
    rintro rfl
    exact hin
  · simp

end AddEdge

/-- The label of an edge depends on the mode and the limit alone. -/
theorem edgeLabel_congr {b b' : Builder} (hm : b'.mode = b.mode) (hl : b'.limit = b.limit)
    (text : Option String) : b'.edgeLabel text = b.edgeLabel text := by
  cases text <;> simp [edgeLabel, label, hm, hl]

/-! ### Growth -/

/-- The labels of edges that lead forward. -/
def forwardLabels : List (Option String) := [none, some "Yes", some "No", some "Exception"]

/-- The styles of single nodes are those of query clauses. -/
def IsClauseStyle (css : String) : Prop :=
  css ∈ ["fill:#e65100,color:#fff,stroke:#bf360c", "fill:#ffccbc,stroke:#bf360c",
    "fill:#fff9c4,stroke:#fbc02d", "fill:#e8f5e9,stroke:#2e7d32", "fill:#fff3e0,stroke:#e65100",
    "fill:#e1f5fe,stroke:#0277bd"]

/-- `b'` comes out of `b` by drawing. -/
inductive Grows : Builder → Builder → Prop
  | refl (b : Builder) : Grows b b
  | trans {b b₁ b₂ : Builder} : Grows b b₁ → Grows b₁ b₂ → Grows b b₂
  | node (b : Builder) {shape : Shape} (text : String) (line : Option Int) {family : IdFamily} :
      shape ≠ .subgraph → family.Proper → Grows b (b.addNode shape text line family).2
  | merge (b : Builder) : Grows b b.addMerge.2
  | forward {b : Builder} {source target : String} {label : Option String} (style : EdgeStyle) :
      source ∈ b.ids → target ∈ b.ids → idNumber source < idNumber target →
      label ∈ forwardLabels → Grows b (b.addEdge source target label style)
  | back {b : Builder} {source target : String} (style : EdgeStyle) :
      source ∈ b.ids → (∃ n ∈ b.nodes, n.id = target ∧ n.shape = .loop) →
      idNumber target < idNumber source → Grows b (b.addEdge source target (some "Repeat") style)
  | style {b : Builder} {id css : String} :
      id ∈ b.ids → IsClauseStyle css → Grows b (b.addStyle id css)
  | scope {b b₁ : Builder} (text : String) (line : Option Int) :
      Grows (b.openSubgraph text line).2 b₁ → b.nodes.length + 1 < b₁.nodes.length →
      Grows b b₁.closeSubgraph

namespace Grows

variable {b b' : Builder}

/-- Nodes are added at the end. -/
theorem nodes_prefix (h : Grows b b') : b.nodes <+: b'.nodes := by
  induction h with
  | refl b => exact List.prefix_refl _
  | trans _ _ ih₁ ih₂ => exact ih₁.trans ih₂
  | node b text line _ _ => exact List.prefix_append _ _
  | merge b => exact List.prefix_append _ _
  | forward => simp
  | back => simp
  | style => exact List.prefix_refl _
  | scope text line _ _ ih => exact (List.prefix_append _ _).trans ih

/-- Edges are added at the end. -/
theorem edges_prefix (h : Grows b b') : b.edges <+: b'.edges := by
  induction h with
  | refl b => exact List.prefix_refl _
  | trans _ _ ih₁ ih₂ => exact ih₁.trans ih₂
  | node b text line _ _ => exact List.prefix_refl _
  | merge b => exact List.prefix_refl _
  | forward => exact addEdge_edges_prefix ..
  | back => exact addEdge_edges_prefix ..
  | style => exact List.prefix_refl _
  | scope text line _ _ ih => exact ih

/-- The mode, the limit and the open subgraphs are those from before. -/
theorem context_eq (h : Grows b b') :
    b'.mode = b.mode ∧ b'.limit = b.limit ∧ b'.scopes = b.scopes := by
  induction h with
  | refl b => exact ⟨rfl, rfl, rfl⟩
  | trans _ _ ih₁ ih₂ =>
      obtain ⟨hm₁, hl₁, hs₁⟩ := ih₁
      obtain ⟨hm₂, hl₂, hs₂⟩ := ih₂
      exact ⟨hm₂.trans hm₁, hl₂.trans hl₁, hs₂.trans hs₁⟩
  | node b text line _ _ => exact ⟨rfl, rfl, rfl⟩
  | merge b => exact ⟨rfl, rfl, rfl⟩
  | forward => simp
  | back => simp
  | style => exact ⟨rfl, rfl, rfl⟩
  | scope text line _ _ ih =>
      obtain ⟨hm, hl, hs⟩ := ih
      refine ⟨hm, hl, ?_⟩
      rw [closeSubgraph_scopes, hs]
      rfl

/-- What is opened in the course of a growth is closed again. -/
theorem scopes_eq (h : Grows b b') : b'.scopes = b.scopes := h.context_eq.2.2

/-- Labels of edges come out as before. -/
theorem edgeLabel_eq (h : Grows b b') (text : Option String) :
    b'.edgeLabel text = b.edgeLabel text :=
  edgeLabel_congr h.context_eq.1 h.context_eq.2.1 text

/-- Nodes stay. -/
theorem mem_nodes (h : Grows b b') {n : Node} (hn : n ∈ b.nodes) : n ∈ b'.nodes :=
  h.nodes_prefix.subset hn

/-- Edges stay. -/
theorem mem_edges (h : Grows b b') {e : Edge} (he : e ∈ b.edges) : e ∈ b'.edges :=
  h.edges_prefix.subset he

/-- Ids stay in use. -/
theorem mem_ids (h : Grows b b') {id : String} (hid : id ∈ b.ids) : id ∈ b'.ids := by
  obtain ⟨n, hn, rfl⟩ := Builder.mem_ids.mp hid
  exact Builder.mem_ids.mpr ⟨n, h.mem_nodes hn, rfl⟩

end Grows

/-! ### The invariant of grown builders -/

/-- What holds of every builder that is grown from an empty one. -/
structure Sound (b : Builder) : Prop where
  /-- The next number is one more than there are nodes. -/
  next_eq : b.next = b.nodes.length + 1
  /-- Nodes are numbered in their order, from one on. -/
  idNumber_eq : ∀ (i : Nat) (n : Node), b.nodes[i]? = some n → idNumber n.id = i + 1
  source_mem : ∀ e ∈ b.edges, e.source ∈ b.ids
  target_mem : ∀ e ∈ b.edges, e.target ∈ b.ids
  style_mem : ∀ s ∈ b.styles, s.node ∈ b.ids
  nodup_edges : b.edges.Nodup
  /-- What is open is a subgraph of the graph. -/
  scope_mem : ∀ p ∈ b.scopes, ∃ (j : Nat) (m : Node),
    b.nodes[j]? = some m ∧ m.id = p ∧ m.shape = .subgraph
  /-- A parent is a subgraph that stands before. -/
  parent_mem : ∀ (i : Nat) (n : Node) (p : String), b.nodes[i]? = some n → n.parent = some p →
    ∃ (j : Nat) (m : Node), j < i ∧ b.nodes[j]? = some m ∧ m.id = p ∧ m.shape = .subgraph

/-- A builder with nothing in it is sound. -/
theorem sound_empty (mode : LabelMode) (limit : Option Int) : (empty mode limit).Sound where
  next_eq := rfl
  idNumber_eq := by simp [empty]
  source_mem := by simp [empty]
  target_mem := by simp [empty]
  style_mem := by simp [empty]
  nodup_edges := by simp [empty]
  scope_mem := by simp [empty]
  parent_mem := by simp [empty]

namespace Sound

variable {b b' : Builder}

/-- The number of an id lies between one and the next number. -/
theorem idNumber_bounds (h : b.Sound) {id : String} (hid : id ∈ b.ids) :
    1 ≤ idNumber id ∧ idNumber id < b.next := by
  obtain ⟨n, hn, rfl⟩ := Builder.mem_ids.mp hid
  obtain ⟨i, hi⟩ := List.mem_iff_getElem?.mp hn
  have hlt : i < b.nodes.length := (List.getElem?_eq_some_iff.mp hi).1
  rw [h.idNumber_eq i n hi, h.next_eq]
  omega

/-- The number of an id in use has been given out. -/
theorem idNumber_lt (h : b.Sound) {id : String} (hid : id ∈ b.ids) : idNumber id < b.next :=
  (h.idNumber_bounds hid).2

/-- An id is not the empty text. -/
theorem isEmpty_eq_false (h : b.Sound) {id : String} (hid : id ∈ b.ids) : id.isEmpty = false :=
  ne_empty_of_idNumber_pos (h.idNumber_bounds hid).1

/-- A node is known by the number of its id. -/
theorem node_eq (h : b.Sound) {n m : Node} (hn : n ∈ b.nodes) (hm : m ∈ b.nodes)
    (hid : idNumber n.id = idNumber m.id) : n = m := by
  obtain ⟨i, hi⟩ := List.mem_iff_getElem?.mp hn
  obtain ⟨j, hj⟩ := List.mem_iff_getElem?.mp hm
  rw [h.idNumber_eq i n hi, h.idNumber_eq j m hj] at hid
  obtain rfl : i = j := by omega
  rw [hi] at hj
  exact Option.some.inj hj

/-- No two nodes have one id. -/
theorem nodup_ids (h : b.Sound) : b.ids.Nodup := by
  rw [ids, List.Nodup, List.pairwise_map, List.pairwise_iff_getElem]
  intro i j hi hj hij heq
  have hi' := h.idNumber_eq i _ (List.getElem?_eq_getElem hi)
  have hj' := h.idNumber_eq j _ (List.getElem?_eq_getElem hj)
  rw [heq] at hi'
  omega

/-- One more node with the next number, in the innermost open subgraph, which may be opened. -/
theorem append (h : b.Sound) {n : Node} (hnodes : b'.nodes = b.nodes ++ [n])
    (hnext : b'.next = b.next + 1) (hnumber : idNumber n.id = b.next)
    (hparent : n.parent = b.scopes.head?) (hedges : b'.edges = b.edges)
    (hstyles : b'.styles = b.styles)
    (hscopes : ∀ p ∈ b'.scopes, p ∈ b.scopes ∨ p = n.id ∧ n.shape = .subgraph) : b'.Sound := by
  have hmem : ∀ id ∈ b.ids, id ∈ b'.ids := by
    intro id hid
    simp only [ids, hnodes, List.map_append, List.mem_append]
    exact Or.inl hid
  have hget : ∀ (i : Nat) (m : Node), b'.nodes[i]? = some m →
      b.nodes[i]? = some m ∨ i = b.nodes.length ∧ m = n := by
    intro i m hi
    rw [hnodes] at hi
    rcases Nat.lt_trichotomy i b.nodes.length with hlt | rfl | hgt
    · rw [List.getElem?_append_left hlt] at hi
      exact Or.inl hi
    · rw [List.getElem?_append_right (Nat.le_refl _), Nat.sub_self, List.getElem?_cons_zero] at hi
      exact Or.inr ⟨rfl, (Option.some.inj hi).symm⟩
    · rw [List.getElem?_eq_none (by rw [List.length_append]; simp; omega)] at hi
      exact absurd hi (by simp)
  have hold : ∀ (i : Nat) (m : Node), b.nodes[i]? = some m → b'.nodes[i]? = some m := by
    intro i m hi
    rw [hnodes, List.getElem?_append_left (List.getElem?_eq_some_iff.mp hi).1]
    exact hi
  refine ⟨?_, ?_, ?_, ?_, ?_, ?_, ?_, ?_⟩
  · rw [hnext, h.next_eq, hnodes, List.length_append, List.length_singleton]
  · intro i m hi
    rcases hget i m hi with hi | ⟨rfl, rfl⟩
    · exact h.idNumber_eq i m hi
    · rw [hnumber, h.next_eq]
  · intro e he
    exact hmem _ (h.source_mem e (hedges ▸ he))
  · intro e he
    exact hmem _ (h.target_mem e (hedges ▸ he))
  · intro s hs
    exact hmem _ (h.style_mem s (hstyles ▸ hs))
  · rw [hedges]
    exact h.nodup_edges
  · intro p hp
    rcases hscopes p hp with hp | ⟨rfl, hshape⟩
    · obtain ⟨j, m, hj, hm⟩ := h.scope_mem p hp
      exact ⟨j, m, hold j m hj, hm⟩
    · refine ⟨b.nodes.length, n, ?_, rfl, hshape⟩
      rw [hnodes, List.getElem?_append_right (Nat.le_refl _)]
      simp
  · intro i m p hi hp
    rcases hget i m hi with hi | ⟨rfl, rfl⟩
    · obtain ⟨j, k, hj, hk, hkp⟩ := h.parent_mem i m p hi hp
      exact ⟨j, k, hj, hold j k hk, hkp⟩
    · rw [hparent] at hp
      obtain ⟨j, k, hk, hkp⟩ := h.scope_mem p (List.mem_of_head? hp)
      exact ⟨j, k, (List.getElem?_eq_some_iff.mp hk).1, hold j k hk, hkp⟩

/-- The number of a new node is free, so its id is. -/
theorem addNode (h : b.Sound) (shape : Shape) (text : String) (line : Option Int)
    {family : IdFamily} (hf : family.Proper) : (b.addNode shape text line family).2.Sound :=
  h.append (addNode_nodes b shape text line family) rfl (idNumber_idOf hf line b.next) rfl rfl rfl
    fun _ hp => Or.inl hp

/-- A merge point is a new node like any other. -/
theorem addMerge (h : b.Sound) : b.addMerge.2.Sound :=
  h.append (addMerge_nodes b) rfl (idNumber_idOf IdFamily.proper_merge none b.next) rfl rfl rfl
    fun _ hp => Or.inl hp

/-- A subgraph that is opened has been drawn, so it may be a parent. -/
theorem openSubgraph (h : b.Sound) (text : String) (line : Option Int) :
    (b.openSubgraph text line).2.Sound := by
  refine h.append (openSubgraph_nodes b text line) rfl
    (idNumber_idOf IdFamily.proper_subgraph none b.next) rfl rfl rfl fun p hp => ?_
  rcases List.mem_cons.mp hp with rfl | hp
  · exact Or.inr ⟨rfl, rfl⟩
  · exact Or.inl hp

/-- The scopes around a subgraph are those that were open before it. -/
theorem closeSubgraph (h : b.Sound) : b.closeSubgraph.Sound :=
  { h with scope_mem := fun p hp => h.scope_mem p (List.mem_of_mem_tail hp) }

/-- An edge between nodes that are there is drawn once, whether it was there already or not. -/
theorem addEdge (h : b.Sound) {source target : String} (hs : source ∈ b.ids)
    (ht : target ∈ b.ids) (text : Option String) (style : EdgeStyle) :
    (b.addEdge source target text style).Sound := by
  have hmem : ∀ e ∈ (b.addEdge source target text style).edges,
      e ∈ b.edges ∨ e = ⟨source, target, b.edgeLabel text, style⟩ := fun e he =>
    (mem_addEdge_edges (h.isEmpty_eq_false hs) (h.isEmpty_eq_false ht)).mp he
  refine ⟨?_, ?_, ?_, ?_, ?_, ?_, ?_, ?_⟩
  · simpa using h.next_eq
  · simpa using h.idNumber_eq
  · intro e he
    rw [addEdge_ids]
    rcases hmem e he with he | rfl
    · exact h.source_mem e he
    · exact hs
  · intro e he
    rw [addEdge_ids]
    rcases hmem e he with he | rfl
    · exact h.target_mem e he
    · exact ht
  · simpa using h.style_mem
  · rcases addEdge_edges_eq b source target text style with he | ⟨hnew, he⟩
    · rw [he]
      exact h.nodup_edges
    · rw [he]
      exact List.nodup_append.mpr ⟨h.nodup_edges, by simp, by
        intro e hmem' f hf
        rw [List.mem_singleton.mp hf]
        rintro rfl
        exact hnew hmem'⟩
  · simpa using h.scope_mem
  · simpa using h.parent_mem

/-- A style for a node that is there. -/
theorem addStyle (h : b.Sound) {id : String} (hid : id ∈ b.ids) (css : String) :
    (b.addStyle id css).Sound :=
  { h with
    style_mem := fun s hs => by
      rcases List.mem_append.mp hs with hs | hs
      · exact h.style_mem s hs
      · rw [List.mem_singleton.mp hs]
        exact hid }

end Sound

/-- Growth keeps a builder sound. -/
theorem Grows.sound {b b' : Builder} (h : Grows b b') (hb : b.Sound) : b'.Sound := by
  induction h with
  | refl b => exact hb
  | trans _ _ ih₁ ih₂ => exact ih₂ (ih₁ hb)
  | node b text line _ hf => exact hb.addNode _ text line hf
  | merge b => exact hb.addMerge
  | forward style hs ht _ _ => exact hb.addEdge hs ht _ style
  | back style hs ht _ =>
      obtain ⟨n, hn, rfl, -⟩ := ht
      exact hb.addEdge hs (Builder.mem_ids.mpr ⟨n, hn, rfl⟩) _ style
  | style hid _ => exact hb.addStyle hid _
  | scope text line _ _ ih => exact (ih (hb.openSubgraph text line)).closeSubgraph

/-- The next number does not go down. -/
theorem Grows.next_le {b b' : Builder} (h : Grows b b') : b.next ≤ b'.next := by
  induction h with
  | refl b => exact Nat.le_refl _
  | trans _ _ ih₁ ih₂ => exact Nat.le_trans ih₁ ih₂
  | node b text line _ _ => exact Nat.le_succ _
  | merge b => exact Nat.le_succ _
  | forward => simp
  | back => simp
  | style => exact Nat.le_refl _
  | scope text line _ _ ih => exact Nat.le_trans (Nat.le_succ _) ih

/-! ### What growth leaves in place -/

/-- All that is in `b` is in `b'`, which makes labels as `b` does. Unlike growth this holds across
the opening and the closing of a subgraph. -/
structure Extends (b b' : Builder) : Prop where
  nodes_prefix : b.nodes <+: b'.nodes
  edges_prefix : b.edges <+: b'.edges
  mode_eq : b'.mode = b.mode
  limit_eq : b'.limit = b.limit
  next_le : b.next ≤ b'.next

/-- Growth adds to what is there, and closes what it opens. -/
theorem Grows.extends {b b' : Builder} (h : Grows b b') : Extends b b' :=
  ⟨h.nodes_prefix, h.edges_prefix, h.context_eq.1, h.context_eq.2.1, h.next_le⟩

namespace Extends

variable {b b₁ b' : Builder}

/-- Nothing is added. -/
theorem refl (b : Builder) : Extends b b := (Grows.refl b).extends

/-- What two extensions add is added by both together. -/
theorem trans (h₁ : Extends b b₁) (h₂ : Extends b₁ b') : Extends b b' where
  nodes_prefix := h₁.nodes_prefix.trans h₂.nodes_prefix
  edges_prefix := h₁.edges_prefix.trans h₂.edges_prefix
  mode_eq := h₂.mode_eq.trans h₁.mode_eq
  limit_eq := h₂.limit_eq.trans h₁.limit_eq
  next_le := Nat.le_trans h₁.next_le h₂.next_le

/-- Opening a subgraph adds a node and keeps mode and limit. -/
theorem openSubgraph (b : Builder) (text : String) (line : Option Int) :
    Extends b (b.openSubgraph text line).2 :=
  ⟨List.prefix_append _ _, List.prefix_refl _, rfl, rfl, Nat.le_succ _⟩

/-- Closing a subgraph adds nothing. -/
theorem closeSubgraph (b : Builder) : Extends b b.closeSubgraph :=
  ⟨List.prefix_refl _, List.prefix_refl _, rfl, rfl, Nat.le_refl _⟩

/-- An edge adds nothing but itself. -/
theorem addEdge (b : Builder) (source target : String) (text : Option String) (style : EdgeStyle) :
    Extends b (b.addEdge source target text style) :=
  ⟨by simp, addEdge_edges_prefix .., addEdge_mode .., addEdge_limit .., by simp⟩

/-- Edges are labelled in the same way afterwards. -/
theorem edgeLabel_eq (h : Extends b b') (text : Option String) :
    b'.edgeLabel text = b.edgeLabel text :=
  edgeLabel_congr h.mode_eq h.limit_eq text

end Extends

end Builder

end Flowchart
