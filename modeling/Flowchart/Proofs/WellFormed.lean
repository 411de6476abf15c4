import Flowchart.Proofs.Growth

/-!
# Well-formed graphs

`Graph.WellFormed` collects what a reader of a graph relies on: ids name nodes, edges and styles
refer to nodes of the graph, nothing is listed twice, parents are subgraphs that stand before
their children, and no subgraph is empty, not even one that holds nothing but subgraphs.

`Builder.Grows.wellFormed` says that every builder grown from an empty one holds such a graph,
with no subgraph left open. That a subgraph is not empty is the one part that is no invariant of
single additions, since a subgraph is empty while it is being opened; `Builder.Grows.filled`
proves it together with the fact that growth inside a subgraph puts a node into it.
-/

namespace Flowchart

namespace Graph

/-- `n` stands in the subgraph `id`, directly or inside a subgraph that stands there. -/
inductive Contains (g : Graph) : String → Node → Prop
  | child {id : String} {n : Node} : n ∈ g.nodes → n.parent = some id → Contains g id n
  | within {id : String} {m n : Node} :
      m ∈ g.nodes → m.parent = some id → Contains g m.id n → Contains g id n

/-- A graph that can be read: see the module's description. -/
structure WellFormed (g : Graph) : Prop where
  nodup_ids : (g.nodes.map (·.id)).Nodup
  source_mem : ∀ e ∈ g.edges, e.source ∈ g.nodes.map (·.id)
  target_mem : ∀ e ∈ g.edges, e.target ∈ g.nodes.map (·.id)
  style_mem : ∀ s ∈ g.styles, s.node ∈ g.nodes.map (·.id)
  nodup_edges : g.edges.Nodup
  /-- A parent is a subgraph that stands before. -/
  parent_before : ∀ (i : Nat) (n : Node) (p : String), g.nodes[i]? = some n → n.parent = some p →
    ∃ (j : Nat) (m : Node), j < i ∧ g.nodes[j]? = some m ∧ m.id = p ∧ m.shape = .subgraph
  child_exists : ∀ n ∈ g.nodes, n.shape = .subgraph → ∃ c ∈ g.nodes, c.parent = some n.id
  leaf_exists : ∀ n ∈ g.nodes, n.shape = .subgraph →
    ∃ leaf ∈ g.nodes, leaf.shape ≠ .subgraph ∧ g.Contains n.id leaf

/-- More nodes leave every node where it is. -/
theorem Contains.mono {g g' : Graph} (hsub : g.nodes ⊆ g'.nodes) {id : String} {n : Node}
    (h : g.Contains id n) : g'.Contains id n := by
  induction h with
  | child hn hp => exact Contains.child (hsub hn) hp
  | within hm hp _ ih => exact Contains.within (hsub hm) hp ih

/-- What contains a subgraph contains its children. -/
theorem Contains.append {g : Graph} {id : String} {m n : Node} (h : g.Contains id m)
    (hn : n ∈ g.nodes) (hp : n.parent = some m.id) : g.Contains id n := by
  induction h with
  | child hm hid => exact Contains.within hm hid (Contains.child hn hp)
  | within hk hid _ ih => exact Contains.within hk hid (ih hp)

/-- Whatever contains a node has a child. -/
theorem Contains.exists_child {g : Graph} {id : String} {n : Node} (h : g.Contains id n) :
    ∃ c ∈ g.nodes, c.parent = some id := by
  cases h with
  | child hn hp => exact ⟨n, hn, hp⟩
  | within hm hp _ => exact ⟨_, hm, hp⟩

end Graph

namespace Builder

/-- The subgraph `id` holds a node that is no subgraph. -/
def HasLeaf (b : Builder) (id : String) : Prop :=
  ∃ leaf ∈ b.nodes, leaf.shape ≠ .subgraph ∧ b.build.Contains id leaf

/-- A subgraph that holds a node goes on to hold it. -/
theorem HasLeaf.mono {b b' : Builder} (h : b.nodes ⊆ b'.nodes) {id : String}
    (hl : b.HasLeaf id) : b'.HasLeaf id := by
  obtain ⟨leaf, hleaf, hshape, hc⟩ := hl
  exact ⟨leaf, h hleaf, hshape, hc.mono h⟩

/-- One more node that is no subgraph fills the innermost open subgraph. -/
theorem filled_of_append {b b' : Builder} {n : Node} (hnodes : b'.nodes = b.nodes ++ [n])
    (hshape : n.shape ≠ .subgraph) (hparent : n.parent = b.scopes.head?) :
    (∀ m ∈ b'.nodes, m.shape = .subgraph → m ∈ b.nodes ∨ b'.HasLeaf m.id) ∧
      (b.nodes.length < b'.nodes.length → ∀ p, b.scopes.head? = some p → b'.HasLeaf p) := by
  have hn : n ∈ b'.nodes := by
    rw [hnodes]
    exact List.mem_append_right _ (List.mem_singleton_self n)
  constructor
  · intro m hm hsub
    rw [hnodes, List.mem_append, List.mem_singleton] at hm
    rcases hm with hm | rfl
    · exact Or.inl hm
    · exact absurd hsub hshape
  · intro _ p hp
    exact ⟨n, hn, hshape, Graph.Contains.child hn (hparent.trans hp)⟩

/-- Growth leaves no new subgraph without a node, and growth by a node puts one into the innermost
open subgraph. -/
theorem Grows.filled {b b' : Builder} (h : Grows b b') :
    (∀ n ∈ b'.nodes, n.shape = .subgraph → n ∈ b.nodes ∨ b'.HasLeaf n.id) ∧
      (b.nodes.length < b'.nodes.length → ∀ p, b.scopes.head? = some p → b'.HasLeaf p) := by
  induction h with
  | refl b => exact ⟨fun n hn _ => Or.inl hn, fun hlt => absurd hlt (Nat.lt_irrefl _)⟩
  | @trans b b₁ b₂ h₁ h₂ ih₁ ih₂ =>
      have hsub : b₁.nodes ⊆ b₂.nodes := h₂.nodes_prefix.subset
      constructor
      · intro n hn hshape
        rcases ih₂.1 n hn hshape with hn | hleaf
        · exact (ih₁.1 n hn hshape).imp id (HasLeaf.mono hsub)
        · exact Or.inr hleaf
      · intro hlt p hp
        by_cases hgrown : b.nodes.length < b₁.nodes.length
        · exact (ih₁.2 hgrown p hp).mono hsub
        · exact ih₂.2 (by omega) p (by rw [h₁.scopes_eq]; exact hp)
  | node b text line hshape _ => exact filled_of_append (addNode_nodes b _ text line _) hshape rfl
  | merge b => exact filled_of_append (addMerge_nodes b) Shape.noConfusion rfl
  | forward style _ _ _ _ =>
      refine ⟨fun n hn _ => Or.inl (by simpa using hn), fun hlt => absurd hlt ?_⟩
      simp
  | back style _ _ _ =>
      refine ⟨fun n hn _ => Or.inl (by simpa using hn), fun hlt => absurd hlt ?_⟩
      simp
  | style => exact ⟨fun n hn _ => Or.inl hn, fun hlt => absurd hlt (Nat.lt_irrefl _)⟩
  | @scope b b₁ text line h₁ hlt ih =>
      -- the subgraph itself is filled because it grew after it was opened
      have hself : b₁.HasLeaf (idOf (.named "S") none b.next) :=
        ih.2 (by
          rw [openSubgraph_nodes, List.length_append, List.length_singleton]
          exact hlt) _ rfl
      constructor
      · intro n hn hshape
        rcases ih.1 n hn hshape with hn | hleaf
        · rw [openSubgraph_nodes, List.mem_append, List.mem_singleton] at hn
          rcases hn with hn | rfl
          · exact Or.inl hn
          · exact Or.inr hself
        · exact Or.inr hleaf
      · intro _ p hp
        obtain ⟨leaf, hleaf, hshape, hc⟩ := hself
        have hmem : (⟨idOf (.named "S") none b.next, .subgraph, b.label text, line,
            b.scopes.head?, text⟩ : Node) ∈ b₁.nodes :=
          h₁.mem_nodes (List.mem_append_right _ (List.mem_singleton_self _))
        exact ⟨leaf, hleaf, hshape, Graph.Contains.within (g := b₁.build) hmem hp hc⟩

/-- What is grown from an empty builder is a well-formed graph, and nothing is left open. -/
theorem Grows.wellFormed {mode : LabelMode} {limit : Option Int} {b : Builder}
    (h : Grows (empty mode limit) b) : b.build.WellFormed ∧ b.scopes = [] := by
  have hb : b.Sound := h.sound (sound_empty mode limit)
  have hleaf : ∀ n ∈ b.nodes, n.shape = .subgraph → b.HasLeaf n.id := fun n hn hshape =>
    (h.filled.1 n hn hshape).elim (fun hn => absurd hn (by simp [empty])) id
  refine ⟨⟨hb.nodup_ids, hb.source_mem, hb.target_mem, hb.style_mem, hb.nodup_edges,
    hb.parent_mem, ?_, hleaf⟩, h.scopes_eq⟩
  intro n hn hshape
  obtain ⟨leaf, -, -, hc⟩ := hleaf n hn hshape
  exact hc.exists_child

end Builder

end Flowchart
