import Flowchart.Diagram
import Flowchart.Proofs.Operations

/-!
# The outline of a diagram

A builder keeps its nodes in the order in which they were made, and a diagram is written by going
from each subgraph to the nodes in it. Both orders are one: what is made while a subgraph is open
comes directly after it. `Forest` says this of a list of nodes in which all subgraphs are closed,
and `Trail` of one in which some are still open; operations keep a trail, whatever their order, and
a subgraph that is never closed is one that is closed at the end (`Trail.forest`).

`Outlined` says what the lines of a forest are. `exists_outlined` is the main result: going through
the subgraphs of a graph ends, and writes the outline of all its nodes.

## Main results

* `Trail.forest`: a subgraph that is never closed is closed at the end.
* `exists_outlined_of_forest`: the nodes in a subgraph are those that come after it.
* `exists_outlined`: going through the subgraphs writes the outline of all nodes.
-/

namespace Flowchart

/-! ### Nodes in subgraphs -/

/-- The nodes stand in `parent`, or in subgraphs among them: each subgraph is followed by what it
holds. -/
inductive Forest : (parent : Option String) → List Node → Prop
  | nil (p : Option String) : Forest p []
  | leaf {p : Option String} {n : Node} {rest : List Node} : n.parent = p → n.shape ≠ .subgraph →
      Forest p rest → Forest p (n :: rest)
  | scope {p : Option String} {n : Node} {inner rest : List Node} : n.parent = p →
      n.shape = .subgraph → Forest (some n.id) inner → Forest p rest →
      Forest p (n :: (inner ++ rest))

namespace Forest

variable {p q : Option String} {F F' : List Node}

/-- Two lists in which all subgraphs are closed are so together. -/
theorem append (h : Forest p F) (h' : Forest p F') : Forest p (F ++ F') := by
  induction h with
  | nil => exact h'
  | leaf hparent hshape _ ih => exact leaf hparent hshape (ih h')
  | scope hparent hshape hinner _ _ ih =>
      rw [List.cons_append, List.append_assoc]
      exact scope hparent hshape hinner (ih h')

/-- A node stands in `p` or in a node of the forest. -/
theorem parent_mem (h : Forest p F) : ∀ n ∈ F, n.parent = p ∨ ∃ m ∈ F, n.parent = some m.id := by
  induction h with
  | nil => simp
  | @leaf p n rest hparent _ _ ih =>
      intro m hm
      rcases List.mem_cons.mp hm with rfl | hm
      · exact Or.inl hparent
      · exact (ih m hm).imp id fun ⟨k, hk, heq⟩ => ⟨k, List.mem_cons_of_mem n hk, heq⟩
  | @scope p n inner rest hparent _ _ _ ih ih' =>
      intro m hm
      simp only [List.mem_cons, List.mem_append] at hm ⊢
      rcases hm with rfl | hm | hm
      · exact Or.inl hparent
      · rcases ih m hm with heq | ⟨k, hk, heq⟩
        · exact Or.inr ⟨n, Or.inl rfl, heq⟩
        · exact Or.inr ⟨k, Or.inr (Or.inl hk), heq⟩
      · exact (ih' m hm).imp id fun ⟨k, hk, heq⟩ => ⟨k, Or.inr (Or.inr hk), heq⟩

/-- A node in a subgraph is among the nodes in it. -/
theorem filter_cons_of_eq {n : Node} (h : n.parent = p) (F : List Node) :
    (n :: F).filter (·.parent == p) = n :: F.filter (·.parent == p) := by
  simp [h]

/-- A node in another one is not. -/
theorem filter_cons_of_ne {n : Node} (h : n.parent ≠ p) (F : List Node) :
    (n :: F).filter (·.parent == p) = F.filter (·.parent == p) := by
  simp [h]

/-- No node of the forest stands in anything else. -/
theorem filter_eq_nil (h : Forest p F) (hp : p ≠ q) (hF : ∀ n ∈ F, some n.id ≠ q) :
    F.filter (·.parent == q) = [] := by
  rw [List.filter_eq_nil_iff]
  intro n hn hq
  rcases h.parent_mem n hn with heq | ⟨m, hm, heq⟩
  · exact hp (heq.symm.trans (beq_iff_eq.mp hq))
  · exact hF m hm (heq.symm.trans (beq_iff_eq.mp hq))

/-- What stands neither in `p` nor in what follows a subgraph stands in the subgraph. -/
theorem filter_scope {n : Node} {inner rest : List Node} (hrest : Forest p rest)
    (hparent : n.parent = p) (hq : p ≠ q) (hk : ∀ k ∈ rest, some k.id ≠ q) :
    (n :: (inner ++ rest)).filter (·.parent == q) = inner.filter (·.parent == q) := by
  rw [filter_cons_of_ne (hparent ▸ hq), List.filter_append, hrest.filter_eq_nil hq hk,
    List.append_nil]

end Forest

/-- The nodes are a forest but for the subgraphs that are still open, innermost first. -/
inductive Trail : (scopes : List String) → List Node → Prop
  | root {ns : List Node} : Forest none ns → Trail [] ns
  | inside {scopes : List String} {ns inner : List Node} {n : Node} : Trail scopes ns →
      n.parent = scopes.head? → n.shape = .subgraph → Forest (some n.id) inner →
      Trail (n.id :: scopes) (ns ++ n :: inner)

namespace Trail

variable {scopes : List String} {ns F : List Node}

/-- A forest in the innermost subgraph. -/
theorem append (h : Trail scopes ns) (hF : Forest scopes.head? F) : Trail scopes (ns ++ F) := by
  cases h with
  | root h => exact root (h.append hF)
  | inside h hparent hshape hinner =>
      rw [List.append_assoc, List.cons_append]
      exact inside h hparent hshape (hinner.append hF)

/-- The innermost subgraph is closed. -/
theorem close (h : Trail scopes ns) : Trail scopes.tail ns := by
  cases h with
  | root h => exact root h
  | inside h hparent hshape hinner =>
      have hscope := Forest.scope hparent hshape hinner (Forest.nil _)
      rw [List.append_nil] at hscope
      exact h.append hscope

/-- With all subgraphs closed there is a forest. -/
theorem forest (h : Trail scopes ns) : Forest none ns := by
  induction scopes with
  | nil =>
      cases h with
      | root h => exact h
  | cons s scopes ih => exact ih h.close

end Trail

/-- The shapes of ordinary nodes. -/
def Shape.IsPlain (s : Shape) : Prop := s ≠ .merge ∧ s ≠ .subgraph

namespace Builder.Made

variable {b : Builder}

/-- Operations keep the nodes a trail to the innermost open subgraph. -/
theorem trail (h : Made Shape.IsPlain b) : Trail b.scopes b.nodes := by
  have hleaf {c : Builder} {n : Node} (hc : Trail c.scopes c.nodes)
      (hparent : n.parent = c.scopes.head?) (hshape : n.shape ≠ .subgraph) :
      Trail c.scopes (c.nodes ++ [n]) :=
    hc.append (.leaf hparent hshape (.nil _))
  induction h with
  | empty mode limit => exact .root (.nil _)
  | node text line _ hshape _ ih => exact hleaf ih rfl hshape.2
  | merge _ ih => exact hleaf ih rfl nofun
  | @openSubgraph b text line _ ih =>
      let n : Node := ⟨idOf (.named "S") none b.next, .subgraph, b.label text, line,
        b.scopes.head?, text⟩
      exact Trail.inside (n := n) ih rfl rfl (.nil _)
  | closeSubgraph _ ih => exact ih.close
  | edge text style _ _ _ ih =>
      rw [addEdge_scopes, addEdge_nodes]
      exact ih
  | style css _ _ ih => exact ih

/-- The nodes of a builder are a forest, whether its subgraphs are closed or not. -/
theorem forest (h : Made Shape.IsPlain b) : Forest none b.nodes := h.trail.forest

end Builder.Made

/-! ### Lines -/

namespace Diagram

/-- The line that opens a subgraph. -/
def scopeLine (n : Node) : String := "subgraph " ++ n.id ++ " [\"" ++ n.label ++ "\"]"

/-- The lines of nodes in `parent` at indentation `depth`: one for each node in the order of the
nodes, and for a subgraph after its own line its direction, the lines of what it holds, and one
`end`. -/
inductive Outlined : (parent : Option String) → (depth : Nat) → List Node → List String → Prop
  | nil (p : Option String) (d : Nat) : Outlined p d [] []
  | leaf {p : Option String} {d : Nat} {n : Node} {rest : List Node} {lines : List String} :
      n.parent = p → n.shape ≠ .subgraph → Outlined p d rest lines →
      Outlined p d (n :: rest) ((indent d ++ node n) :: lines)
  | scope {p : Option String} {d : Nat} {n : Node} {inner rest : List Node}
      {lines lines' : List String} :
      n.parent = p → n.shape = .subgraph → Outlined (some n.id) (d + 1) inner lines →
      Outlined p d rest lines' → Outlined p d (n :: (inner ++ rest))
        ((indent d ++ scopeLine n) :: (indent (d + 1) ++ "direction TB") ::
          (lines ++ (indent d ++ "end") :: lines'))

/-- The lines of one node in `scope`. -/
def entry (g : Graph) (fuel depth : Nat) (n : Node) : List String :=
  if n.shape = .subgraph then
    (indent depth ++ scopeLine n) :: (indent (depth + 1) ++ "direction TB") ::
      (scope g fuel (some n.id) (depth + 1) ++ [indent depth ++ "end"])
  else [indent depth ++ node n]

/-- With fuel, a subgraph is written by writing the nodes in it. -/
theorem scope_succ (g : Graph) (fuel : Nat) (p : Option String) (depth : Nat) :
    scope g (fuel + 1) p depth = (g.childrenOf p).flatMap (entry g fuel depth) := by
  have hentry : entry g fuel depth = fun n => if n.shape = .subgraph then
      (indent depth ++ "subgraph " ++ n.id ++ " [\"" ++ n.label ++ "\"]") ::
        (indent (depth + 1) ++ "direction TB") ::
        (scope g fuel (some n.id) (depth + 1) ++ [indent depth ++ "end"])
      else [indent depth ++ node n] := by
    funext n
    simp only [entry, scopeLine, String.append_assoc]
  rw [scope, hentry]

/-- The nodes `F` of a graph stand in `p` or in each other, and hold nothing but nodes of `F`. -/
structure Part (g : Graph) (p : Option String) (F : List Node) : Prop where
  nodup : (F.map (·.id)).Nodup
  outside : ∀ n ∈ F, some n.id ≠ p
  children : ∀ n ∈ F, g.childrenOf (some n.id) = F.filter (·.parent == some n.id)

namespace Part

variable {g : Graph} {p : Option String} {n : Node} {inner rest : List Node}

/-- What comes after a first node is what comes after it in the subgraph. -/
theorem tail (h : Part g p (n :: rest)) (hparent : n.parent = p) : Part g p rest := by
  refine ⟨(List.nodup_cons.mp h.nodup).2, fun m hm => h.outside m (List.mem_cons_of_mem n hm),
    fun m hm => ?_⟩
  have hne := h.outside m (List.mem_cons_of_mem n hm)
  rw [h.children m (List.mem_cons_of_mem n hm), Forest.filter_cons_of_ne (hparent ▸ hne.symm)]

/-- What a subgraph holds has other ids than the subgraph and than what follows. -/
theorem id_ne (h : Part g p (n :: (inner ++ rest))) : (∀ m ∈ inner, m.id ≠ n.id) ∧
    (∀ m ∈ rest, m.id ≠ n.id) ∧ ∀ m ∈ inner, ∀ k ∈ rest, m.id ≠ k.id := by
  have hnodup := h.nodup
  rw [List.map_cons, List.map_append, List.nodup_cons, List.mem_append, not_or] at hnodup
  obtain ⟨⟨hninner, hnrest⟩, hnodup⟩ := hnodup
  refine ⟨fun m hm heq => hninner ?_, fun m hm heq => hnrest ?_, fun m hm k hk => ?_⟩
  · exact heq ▸ List.mem_map_of_mem hm
  · exact heq ▸ List.mem_map_of_mem hm
  · exact (List.nodup_append.mp hnodup).2.2 _ (List.mem_map_of_mem hm) _ (List.mem_map_of_mem hk)

/-- A subgraph holds what stands directly in it. -/
theorem childrenOf_scope (h : Part g p (n :: (inner ++ rest))) (hparent : n.parent = p)
    (hrest : Forest p rest) :
    g.childrenOf (some n.id) = inner.filter (·.parent == some n.id) := by
  have hnp := h.outside n List.mem_cons_self
  rw [h.children n List.mem_cons_self]
  exact hrest.filter_scope hparent hnp.symm fun k hk heq =>
    h.id_ne.2.1 k hk (Option.some.inj heq)

/-- What a subgraph holds is a part for itself. -/
theorem inside (h : Part g p (n :: (inner ++ rest))) (hparent : n.parent = p)
    (hrest : Forest p rest) : Part g (some n.id) inner := by
  have hnodup := h.nodup
  rw [List.map_cons, List.map_append] at hnodup
  have hmem : ∀ m ∈ inner, m ∈ n :: (inner ++ rest) := fun m hm =>
    List.mem_cons_of_mem n (List.mem_append_left rest hm)
  refine ⟨(List.nodup_append.mp (List.nodup_cons.mp hnodup).2).1,
    fun m hm heq => h.id_ne.1 m hm (Option.some.inj heq), fun m hm => ?_⟩
  rw [h.children m (hmem m hm)]
  exact hrest.filter_scope hparent (h.outside m (hmem m hm)).symm fun k hk heq =>
    h.id_ne.2.2 m hm k hk (Option.some.inj heq).symm

/-- So is what follows the subgraph. -/
theorem after (h : Part g p (n :: (inner ++ rest))) (hparent : n.parent = p)
    (hinner : Forest (some n.id) inner) : Part g p rest := by
  have hnodup := h.nodup
  rw [List.map_cons, List.map_append] at hnodup
  have hmem : ∀ m ∈ rest, m ∈ n :: (inner ++ rest) := fun m hm =>
    List.mem_cons_of_mem n (List.mem_append_right inner hm)
  refine ⟨(List.nodup_append.mp (List.nodup_cons.mp hnodup).2).2.1,
    fun m hm => h.outside m (hmem m hm), fun m hm => ?_⟩
  have hnil : inner.filter (·.parent == some m.id) = [] := hinner.filter_eq_nil
    (fun heq => h.id_ne.2.1 m hm (Option.some.inj heq).symm)
    fun k hk heq => h.id_ne.2.2 k hk m hm (Option.some.inj heq)
  rw [h.children m (hmem m hm), Forest.filter_cons_of_ne
    (hparent ▸ (h.outside m (hmem m hm)).symm), List.filter_append, hnil, List.nil_append]

end Part

/-- Going through a part of a graph that is a forest writes the outline of it, with fuel for as many
levels as there are nodes. -/
theorem exists_outlined_of_forest {g : Graph} {p : Option String} {F : List Node}
    (hforest : Forest p F) (h : Part g p F) (depth : Nat) :
    ∃ lines, Outlined p depth F lines ∧ ∀ fuel, F.length ≤ fuel →
      (F.filter (·.parent == p)).flatMap (entry g fuel depth) = lines := by
  induction hforest generalizing depth with
  | nil p => exact ⟨[], .nil p depth, fun _ _ => rfl⟩
  | leaf hparent hshape _ ih =>
      obtain ⟨lines, hlines, hfuel⟩ := ih (h.tail hparent) depth
      refine ⟨_, .leaf hparent hshape hlines, fun fuel hle => ?_⟩
      rw [List.length_cons] at hle
      rw [Forest.filter_cons_of_eq hparent, List.flatMap_cons, hfuel fuel (by omega), entry,
        if_neg hshape, List.singleton_append]
  | @scope p n inner rest hparent hshape hinner hrest ih ih' =>
      obtain ⟨lines, hlines, hfuel⟩ := ih (h.inside hparent hrest) (depth + 1)
      obtain ⟨lines', hlines', hfuel'⟩ := ih' (h.after hparent hinner) depth
      refine ⟨_, .scope hparent hshape hlines hlines', fun fuel hle => ?_⟩
      rw [List.length_cons, List.length_append] at hle
      -- there is fuel for one level more than `inner` needs
      obtain ⟨k, rfl⟩ : ∃ k, fuel = k + 1 := ⟨fuel - 1, by omega⟩
      have hnil : inner.filter (·.parent == p) = [] :=
        hinner.filter_eq_nil (h.outside n List.mem_cons_self) fun m hm =>
          h.outside m (List.mem_cons_of_mem n (List.mem_append_left rest hm))
      rw [Forest.filter_cons_of_eq hparent, List.filter_append, hnil, List.nil_append,
        List.flatMap_cons, hfuel' (k + 1) (by omega), entry, if_pos hshape, scope_succ,
        h.childrenOf_scope hparent hrest, hfuel k (by omega)]
      simp only [List.cons_append, List.append_assoc, List.nil_append]

/-- Going through the subgraphs of a graph that operations have made ends, and writes the outline of
its nodes: more fuel than there are nodes makes no difference. -/
theorem exists_outlined {b : Builder} (h : Builder.Made Shape.IsPlain b) :
    ∃ lines, Outlined none 1 b.nodes lines ∧
      ∀ fuel, b.nodes.length < fuel → scope b.build fuel none 1 = lines := by
  have hall : Part b.build none b.nodes := ⟨h.sound.nodup_ids, fun _ _ => nofun, fun _ _ => rfl⟩
  obtain ⟨lines, hlines, hfuel⟩ := exists_outlined_of_forest h.forest hall 1
  refine ⟨lines, hlines, fun fuel hlt => ?_⟩
  obtain ⟨k, rfl⟩ : ∃ k, fuel = k + 1 := ⟨fuel - 1, by omega⟩
  rw [scope_succ]
  exact hfuel k (by omega)

end Diagram

end Flowchart
