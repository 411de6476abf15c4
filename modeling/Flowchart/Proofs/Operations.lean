import Flowchart.Proofs.Growth

/-!
# Builders that are reached by operations

`Builder.Made` says that a builder comes out of an empty one by operations in any order. Unlike
growth it asks for no discipline: subgraphs may stay empty or open, closing may come where nothing
is open, and edges may lead anywhere between the nodes that are there, with any label.
`Made.sound` is the invariant that all such builders share with those that are grown.
-/

namespace Flowchart.Builder

/-- `b` comes out of an empty builder by operations: nodes of the given shapes in any family of ids,
merge points, subgraphs opened and closed, edges between nodes that are there, and styles of nodes
that are there. -/
inductive Made (shapes : Shape → Prop) : Builder → Prop
  | empty (mode : LabelMode) (limit : Option Int) : Made shapes (Builder.empty mode limit)
  | node {b : Builder} {shape : Shape} {family : IdFamily} (text : String) (line : Option Int) :
      Made shapes b → shapes shape → family.Proper →
      Made shapes (b.addNode shape text line family).2
  | merge {b : Builder} : Made shapes b → Made shapes b.addMerge.2
  | openSubgraph {b : Builder} (text : String) (line : Option Int) :
      Made shapes b → Made shapes (b.openSubgraph text line).2
  | closeSubgraph {b : Builder} : Made shapes b → Made shapes b.closeSubgraph
  | edge {b : Builder} {source target : String} (text : Option String) (style : EdgeStyle) :
      Made shapes b → source ∈ b.ids → target ∈ b.ids →
      Made shapes (b.addEdge source target text style)
  | style {b : Builder} {id : String} (css : String) :
      Made shapes b → id ∈ b.ids → Made shapes (b.addStyle id css)

/-- Operations keep a builder sound. -/
theorem Made.sound {shapes : Shape → Prop} {b : Builder} (h : Made shapes b) : b.Sound := by
  induction h with
  | empty mode limit => exact sound_empty mode limit
  | node text line _ _ hfamily ih => exact ih.addNode _ text line hfamily
  | merge _ ih => exact ih.addMerge
  | openSubgraph text line _ ih => exact ih.openSubgraph text line
  | closeSubgraph _ ih => exact ih.closeSubgraph
  | edge text style _ hsource htarget ih => exact ih.addEdge hsource htarget text style
  | style css _ hid ih => exact ih.addStyle hid css

end Flowchart.Builder
