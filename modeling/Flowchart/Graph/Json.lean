import Flowchart.Graph
import Flowchart.Json.Basic

/-!
# Graphs as JSON

The form in which graphs are handed to other programs: every field is written, and what is absent is
null.
-/

namespace Flowchart

/-- A value or null. -/
def Json.ofOption {α : Type} (f : α → Json) : Option α → Json
  | none => .null
  | some a => f a

/-- A node as JSON. -/
def Node.toJson (n : Node) : Json :=
  .obj [("id", .str n.id), ("shape", .str n.shape.name), ("label", .str n.label),
    ("source_line", Json.ofOption .int n.line), ("parent", Json.ofOption .str n.parent),
    ("raw", .str n.raw)]

/-- An edge as JSON. -/
def Edge.toJson (e : Edge) : Json :=
  .obj [("from", .str e.source), ("to", .str e.target), ("label", Json.ofOption .str e.label),
    ("style", .str e.style.name)]

/-- A style entry as JSON. -/
def NodeStyle.toJson (s : NodeStyle) : Json := .obj [("node", .str s.node), ("css", .str s.css)]

/-- A graph as JSON. -/
def Graph.toJson (g : Graph) : Json :=
  .obj [("direction", .str g.direction), ("nodes", .arr (g.nodes.map Node.toJson)),
    ("edges", .arr (g.edges.map Edge.toJson)), ("styles", .arr (g.styles.map NodeStyle.toJson))]

end Flowchart
