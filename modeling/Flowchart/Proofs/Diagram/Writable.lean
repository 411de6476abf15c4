import Flowchart.Proofs.Growth
import Flowchart.Proofs.Label

/-!
# Graphs that can be written

A graph is `Writable` if its ids are ids, its labels have quiet characters only and its styles are
those of clauses: then each node, edge and style entry fits into a line of its own. Growth keeps a
graph writable (`Builder.Grows.writable`), so every graph that is drawn is.
-/

namespace Flowchart

/-- A graph whose texts fit into lines. -/
structure Graph.Writable (g : Graph) : Prop where
  direction_eq : g.direction = "TD"
  node_id : ∀ n ∈ g.nodes, IsId n.id
  node_label : ∀ n ∈ g.nodes, ∀ c ∈ n.label.toList, Text.isQuiet c = true
  source : ∀ e ∈ g.edges, IsId e.source
  target : ∀ e ∈ g.edges, IsId e.target
  edge_label : ∀ e ∈ g.edges, ∀ l ∈ e.label, ∀ c ∈ l.toList, Text.isQuiet c = true
  style_node : ∀ s ∈ g.styles, IsId s.node
  style_css : ∀ s ∈ g.styles, Builder.IsClauseStyle s.css

/-- A graph with nothing in it is writable. -/
theorem Graph.writable_empty : ({} : Graph).Writable := by
  constructor <;> simp

namespace Builder

/-- The labels that a builder makes are quiet. -/
theorem isQuiet_of_mem_edgeLabel {b : Builder} {text : Option String} {l : String}
    (h : b.edgeLabel text = some l) : ∀ c ∈ l.toList, Text.isQuiet c = true := by
  cases text with
  | none => exact absurd h.symm (Option.some_ne_none l)
  | some s =>
      rw [edgeLabel] at h
      split_ifs at h
      obtain rfl := Option.some.inj h
      exact fun c hc => Label.isQuiet_of_mem_within hc

/-- The ids of a writable graph are ids. -/
theorem isId_of_mem_ids {b : Builder} (h : b.build.Writable) {id : String} (hid : id ∈ b.ids) :
    IsId id := by
  obtain ⟨n, hn, rfl⟩ := mem_ids.mp hid
  exact h.node_id n hn

/-- One more node with an id and a quiet label. -/
theorem writable_append {b b' : Builder} (h : b.build.Writable) {n : Node}
    (hnodes : b'.nodes = b.nodes ++ [n]) (hedges : b'.edges = b.edges)
    (hstyles : b'.styles = b.styles) (hid : IsId n.id)
    (hlabel : ∀ c ∈ n.label.toList, Text.isQuiet c = true) : b'.build.Writable := by
  have hmem : ∀ m ∈ b'.nodes, m ∈ b.nodes ∨ m = n := by
    intro m hm
    rwa [hnodes, List.mem_append, List.mem_singleton] at hm
  have hedge : ∀ e ∈ b'.edges, e ∈ b.edges := fun e he => hedges ▸ he
  have hstyle : ∀ s ∈ b'.styles, s ∈ b.styles := fun s hs => hstyles ▸ hs
  refine ⟨rfl, ?_, ?_, ?_, ?_, ?_, ?_, ?_⟩
  · rintro m hm
    rcases hmem m hm with hm | rfl
    · exact h.node_id m hm
    · exact hid
  · rintro m hm
    rcases hmem m hm with hm | rfl
    · exact h.node_label m hm
    · exact hlabel
  · exact fun e he => h.source e (hedge e he)
  · exact fun e he => h.target e (hedge e he)
  · exact fun e he => h.edge_label e (hedge e he)
  · exact fun s hs => h.style_node s (hstyle s hs)
  · exact fun s hs => h.style_css s (hstyle s hs)

/-- One more edge between ids. -/
theorem writable_addEdge {b : Builder} (h : b.build.Writable) {source target : String}
    (hs : IsId source) (ht : IsId target) (text : Option String) (style : EdgeStyle) :
    (b.addEdge source target text style).build.Writable := by
  have hmem : ∀ e ∈ (b.addEdge source target text style).edges,
      e ∈ b.edges ∨ e = ⟨source, target, b.edgeLabel text, style⟩ := by
    intro e he
    rcases addEdge_edges_eq b source target text style with hedges | ⟨-, hedges⟩
    · exact Or.inl (hedges ▸ he)
    · rwa [hedges, List.mem_append, List.mem_singleton] at he
  refine ⟨rfl, ?_, ?_, ?_, ?_, ?_, ?_, ?_⟩
  · intro n hn
    exact h.node_id n (by simpa [build] using hn)
  · intro n hn
    exact h.node_label n (by simpa [build] using hn)
  · intro e he
    rcases hmem e he with he | rfl
    · exact h.source e he
    · exact hs
  · intro e he
    rcases hmem e he with he | rfl
    · exact h.target e he
    · exact ht
  · intro e he
    rcases hmem e he with he | rfl
    · exact h.edge_label e he
    · exact fun l hl => isQuiet_of_mem_edgeLabel hl
  · intro s hs
    exact h.style_node s (by simpa [build] using hs)
  · intro s hs
    exact h.style_css s (by simpa [build] using hs)

/-- One more style of a clause. -/
theorem writable_addStyle {b : Builder} (h : b.build.Writable) {id css : String} (hid : IsId id)
    (hcss : IsClauseStyle css) : (b.addStyle id css).build.Writable := by
  have hmem : ∀ s ∈ b.styles ++ [⟨id, css⟩], IsId s.node ∧ IsClauseStyle s.css := by
    intro s hs
    rcases List.mem_append.mp hs with hs | hs
    · exact ⟨h.style_node s hs, h.style_css s hs⟩
    · rw [List.mem_singleton.mp hs]
      exact ⟨hid, hcss⟩
  exact { h with
    style_node := fun s hs => (hmem s hs).1
    style_css := fun s hs => (hmem s hs).2 }

/-- Growth keeps a graph writable. -/
theorem Grows.writable {b b' : Builder} (h : Grows b b') (hb : b.build.Writable) :
    b'.build.Writable := by
  induction h with
  | refl b => exact hb
  | trans _ _ ih₁ ih₂ => exact ih₂ (ih₁ hb)
  | node b text line _ hf =>
      exact writable_append hb (addNode_nodes b _ text line _) rfl rfl (isId_idOf hf line b.next)
        fun c hc => Label.isQuiet_of_mem_within hc
  | merge b =>
      exact writable_append hb (addMerge_nodes b) rfl rfl
        (isId_idOf IdFamily.proper_merge none b.next) (by simp)
  | forward style hs ht _ _ =>
      exact writable_addEdge hb (isId_of_mem_ids hb hs) (isId_of_mem_ids hb ht) _ style
  | back style hs ht _ =>
      obtain ⟨n, hn, rfl, -⟩ := ht
      exact writable_addEdge hb (isId_of_mem_ids hb hs) (hb.node_id n hn) _ style
  | style hid hcss => exact writable_addStyle hb (isId_of_mem_ids hb hid) hcss
  | @scope b b₁ text line _ _ ih =>
      exact ih (writable_append hb (openSubgraph_nodes b text line) rfl rfl
        (isId_idOf IdFamily.proper_subgraph none b.next) fun c hc => Label.isQuiet_of_mem_within hc)

end Builder

end Flowchart
