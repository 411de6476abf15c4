import Flowchart.Proofs.Drawing.Layout

/-!
# The nodes that a drawing adds

What is drawn between two builders are the nodes that come after those of the first one
(`Builder.added`). A node among them lies on the *flow* if it stands in the subgraph that was open
at the start and is none itself; nodes inside of a subgraph that was opened on the way do not.
`Builder.first?` is the first node on the flow.

Since nodes are numbered in their order, the added ones are those with the later numbers
(`Builder.mem_added`), and where the very first of them is no subgraph, it is the first node on the
flow (`Builder.first?_eq`).

## Main results

* `mem_added`, `mem_added_iff_not_mem`: which nodes are added.
* `first?_eq`, `first?_append`: which of them is the first on the flow.
-/

namespace Flowchart

namespace Builder

/-- The nodes of `b'` that come after those of `b`. -/
def added (b b' : Builder) : List Node := b'.nodes.drop b.nodes.length

/-- Whether a node lies on the flow that is drawn from `b`. -/
def onFlow (b : Builder) (n : Node) : Bool := n.shape != .subgraph && n.parent == b.scopes.head?

/-- The first node on the flow that is drawn from `b`. -/
def first? (b b' : Builder) : Option Node := (b.added b').find? b.onFlow

variable {b b₁ b' : Builder} {n : Node}

/-- A node lies on the flow if it is no subgraph and stands in the subgraph open at the start. -/
theorem onFlow_iff : b.onFlow n = true ↔ n.shape ≠ .subgraph ∧ n.parent = b.scopes.head? := by
  simp [onFlow]

/-- Where nothing is drawn, no node is added. -/
@[simp] theorem added_self (b : Builder) : b.added b = [] := List.drop_length

/-- The nodes afterwards are those before and those that were added. -/
theorem nodes_eq_append_added (h : b.nodes <+: b'.nodes) : b'.nodes = b.nodes ++ b.added b' := by
  obtain ⟨rest, hrest⟩ := h
  rw [added, ← hrest, List.drop_left]

/-- A node that was added is there. -/
theorem mem_nodes_of_mem_added (h : n ∈ b.added b') : n ∈ b'.nodes := List.mem_of_mem_drop h

/-- What is added on the way is added in two parts. -/
theorem added_append (h₁ : b.nodes <+: b₁.nodes) (h₂ : b₁.nodes <+: b'.nodes) :
    b.added b' = b.added b₁ ++ b₁.added b' := by
  have hnodes := nodes_eq_append_added (h₁.trans h₂)
  rw [nodes_eq_append_added h₂, nodes_eq_append_added h₁, List.append_assoc] at hnodes
  exact (List.append_cancel_left hnodes).symm

/-- The added nodes are those with the later numbers. -/
theorem mem_added (hs : b.Sound) (hs' : b'.Sound) (h : b.nodes <+: b'.nodes) :
    n ∈ b.added b' ↔ n ∈ b'.nodes ∧ b.next ≤ idNumber n.id := by
  constructor
  · intro hn
    obtain ⟨i, hi⟩ := List.mem_iff_getElem?.mp hn
    rw [added, List.getElem?_drop] at hi
    have hnumber := hs'.idNumber_eq _ n hi
    have hnext := hs.next_eq
    exact ⟨mem_nodes_of_mem_added hn, by omega⟩
  · rintro ⟨hn, hle⟩
    rw [nodes_eq_append_added h, List.mem_append] at hn
    refine hn.resolve_left fun hold => ?_
    exact absurd (hs.idNumber_lt (mem_ids.mpr ⟨n, hold, rfl⟩)) (Nat.not_lt.mpr hle)

/-- The added nodes are the new ones. -/
theorem mem_added_iff_not_mem (hs : b.Sound) (hs' : b'.Sound) (h : b.nodes <+: b'.nodes) :
    n ∈ b.added b' ↔ n ∈ b'.nodes ∧ n ∉ b.nodes := by
  rw [mem_added hs hs' h]
  refine and_congr_right fun hn => ⟨fun hle hold => ?_, fun hnew => ?_⟩
  · exact absurd (hs.idNumber_lt (mem_ids.mpr ⟨n, hold, rfl⟩)) (Nat.not_lt.mpr hle)
  · rw [nodes_eq_append_added h, List.mem_append] at hn
    exact ((mem_added hs hs' h).mp (hn.resolve_left hnew)).2

/-! ### Parents -/

/-- A new node stands in the subgraph that is open, or in a new one. -/
theorem Grows.parent (h : Grows b b') : ∀ n ∈ b'.nodes,
    n ∈ b.nodes ∨ n.parent = b.scopes.head? ∨ ∃ p, n.parent = some p ∧ b.next ≤ idNumber p := by
  induction h with
  | refl b => exact fun n hn => Or.inl hn
  | @trans b b₁ b₂ h₁ h₂ ih₁ ih₂ =>
      intro n hn
      rcases ih₂ n hn with hn | hopen | ⟨p, hp, hle⟩
      · exact ih₁ n hn
      · exact Or.inr (Or.inl (hopen.trans (congrArg List.head? h₁.scopes_eq)))
      · exact Or.inr (Or.inr ⟨p, hp, Nat.le_trans h₁.next_le hle⟩)
  | node b text line _ _ =>
      intro n hn
      rw [addNode_nodes, List.mem_append, List.mem_singleton] at hn
      exact hn.imp id fun hn => Or.inl (by rw [hn])
  | merge b =>
      intro n hn
      rw [addMerge_nodes, List.mem_append, List.mem_singleton] at hn
      exact hn.imp id fun hn => Or.inl (by rw [hn])
  | forward => exact fun n hn => Or.inl (by simpa using hn)
  | back => exact fun n hn => Or.inl (by simpa using hn)
  | style => exact fun n hn => Or.inl hn
  | @scope b b₁ text line _ _ ih =>
      intro n hn
      rcases ih n hn with hn | hopen | ⟨p, hp, hle⟩
      · rw [openSubgraph_nodes, List.mem_append, List.mem_singleton] at hn
        exact hn.imp id fun hn => Or.inl (by rw [hn])
      · refine Or.inr (Or.inr ⟨_, hopen, ?_⟩)
        exact Nat.le_of_eq (idNumber_idOf IdFamily.proper_subgraph none b.next).symm
      · exact Or.inr (Or.inr ⟨p, hp, Nat.le_trans (Nat.le_succ _) hle⟩)

/-- The subgraph that is open has an earlier number. -/
theorem Sound.idNumber_scope_lt (hs : b.Sound) {p : String} (hp : b.scopes.head? = some p) :
    idNumber p < b.next := by
  obtain ⟨j, m, hj, rfl, -⟩ := hs.scope_mem p (List.mem_of_head? hp)
  exact hs.idNumber_lt (mem_ids.mpr ⟨m, List.mem_of_getElem? hj, rfl⟩)

/-- A parent has an earlier number. -/
theorem Sound.idNumber_parent_lt (hs : b.Sound) (hn : n ∈ b.nodes) {p : String}
    (hp : n.parent = some p) : idNumber p < idNumber n.id := by
  obtain ⟨i, hi⟩ := List.mem_iff_getElem?.mp hn
  obtain ⟨j, m, hlt, hj, rfl, -⟩ := hs.parent_mem i n p hi hp
  rw [hs.idNumber_eq i n hi, hs.idNumber_eq j m hj]
  omega

/-- If the very first node that is added is no subgraph, it is the first node on the flow. -/
theorem first?_eq (hs : b.Sound) (h : Grows b b') (hn : n ∈ b'.nodes)
    (hnumber : idNumber n.id = b.next) (hshape : n.shape ≠ .subgraph) : b.first? b' = some n := by
  have hs' := h.sound hs
  have hparent : n.parent = b.scopes.head? := by
    rcases h.parent n hn with hold | hopen | ⟨p, hp, hle⟩
    · have := hs.idNumber_lt (mem_ids.mpr ⟨n, hold, rfl⟩)
      omega
    · exact hopen
    · have := hs'.idNumber_parent_lt hn hp
      omega
  obtain ⟨i, hi⟩ := List.mem_iff_getElem?.mp hn
  have hindex : i = b.nodes.length := by
    have := hs'.idNumber_eq i n hi
    have := hs.next_eq
    omega
  have hhead : (b.added b').head? = some n := by
    rw [added, List.head?_drop, ← hindex, hi]
  obtain ⟨rest, hrest⟩ := List.head?_eq_some_iff.mp hhead
  rw [first?, hrest, List.find?_cons_of_pos (onFlow_iff.mpr ⟨hshape, hparent⟩)]

/-- The first node on the flow is that of the first part, if it has one. -/
theorem first?_append (h₁ : b.nodes <+: b₁.nodes) (h₂ : b₁.nodes <+: b'.nodes)
    (hscopes : b₁.scopes = b.scopes) : b.first? b' = (b.first? b₁).or (b₁.first? b') := by
  have hflow : b₁.onFlow = b.onFlow := by
    funext n
    rw [onFlow, onFlow, hscopes]
  rw [first?, added_append h₁ h₂, List.find?_append, first?, first?, hflow]

/-- The first node on the flow was added. -/
theorem mem_added_of_first? (h : b.first? b' = some n) : n ∈ b.added b' :=
  List.mem_of_find?_eq_some h

end Builder

/-! ### Blocks and statements -/

namespace Block

/-- The nodes that are emitted for a block, in their order. -/
def emitted (r : Block) : List Node := r.before.added r.after

/-- The ids of the nodes that are emitted for a block. -/
def ids (r : Block) : List String := r.emitted.map (·.id)

/-- The first node on the flow of a block. -/
def first? (r : Block) : Option Node := r.before.first? r.after

end Block

namespace Visit

/-- The nodes that are emitted for a statement, in their order. -/
def emitted (v : Visit) : List Node := v.before.added v.after

/-- The first node on the flow of a statement. -/
def first? (v : Visit) : Option Node := v.before.first? v.after

/-- The node is emitted for the statement itself, not for one of its blocks. -/
def Emits (v : Visit) (n : Node) : Prop := n ∈ v.emitted ∧ ∀ r ∈ v.blocks, n ∉ r.emitted

end Visit

end Flowchart
