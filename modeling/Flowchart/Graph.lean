/-!
# Flowchart graphs

Nodes and edges of a flowchart, and style entries for single nodes. A node's `id` names it in edges
and styles, its `parent` is the id of the subgraph it stands in, and its `raw` is the text its label
was made from. Lists keep the order in which things were added.
-/

namespace Flowchart

/-- The outline of a node; a merge point and a subgraph are nodes of their own kind. -/
inductive Shape where
  | process
  | decision
  | loop
  | terminal
  | stadium
  | subroutine
  | flag
  | database
  | merge
  | subgraph
  deriving DecidableEq, Repr

/-- All shapes with their names. -/
def Shape.names : List (Shape × String) :=
  [(.process, "process"), (.decision, "decision"), (.loop, "loop"), (.terminal, "terminal"),
    (.stadium, "stadium"), (.subroutine, "subroutine"), (.flag, "flag"), (.database, "database"),
    (.merge, "merge"), (.subgraph, "subgraph")]

/-- The name of a shape. -/
def Shape.name : Shape → String
  | .process => "process"
  | .decision => "decision"
  | .loop => "loop"
  | .terminal => "terminal"
  | .stadium => "stadium"
  | .subroutine => "subroutine"
  | .flag => "flag"
  | .database => "database"
  | .merge => "merge"
  | .subgraph => "subgraph"

/-- The shape of a name. -/
def Shape.ofName? (name : String) : Option Shape :=
  (Shape.names.find? fun p => p.2 == name).map (·.1)

/-- How an edge is drawn. -/
inductive EdgeStyle where
  | solid
  | dashed
  deriving DecidableEq, Repr

/-- The name of an edge style. -/
def EdgeStyle.name : EdgeStyle → String
  | .solid => "solid"
  | .dashed => "dashed"

/-- A node of a flowchart. -/
structure Node where
  id : String
  shape : Shape
  label : String
  line : Option Int := none
  parent : Option String := none
  raw : String := ""
  deriving DecidableEq, Repr

/-- An edge of a flowchart. -/
structure Edge where
  source : String
  target : String
  label : Option String := none
  style : EdgeStyle := .solid
  deriving DecidableEq, Repr

/-- A style entry: a node and how to draw it. -/
structure NodeStyle where
  node : String
  css : String
  deriving DecidableEq, Repr

/-- A flowchart. -/
structure Graph where
  nodes : List Node := []
  edges : List Edge := []
  direction : String := "TD"
  styles : List NodeStyle := []
  deriving DecidableEq, Repr

namespace Graph

/-- Whether the graph has no node. -/
def isEmpty (g : Graph) : Bool := g.nodes.isEmpty

/-- The first node of an id. -/
def node? (g : Graph) (id : String) : Option Node := g.nodes.find? (·.id == id)

/-- The nodes of a shape. -/
def nodesOfShape (g : Graph) (shape : Shape) : List Node := g.nodes.filter (·.shape == shape)

/-- The nodes of a source line, or those without one; merge points belong to neither. -/
def nodesOnLine (g : Graph) (line : Option Int) : List Node :=
  g.nodes.filter fun n => n.line == line && n.shape != .merge

/-- The edges out of a node. -/
def outgoing (g : Graph) (id : String) : List Edge := g.edges.filter (·.source == id)

/-- The edges into a node. -/
def incoming (g : Graph) (id : String) : List Edge := g.edges.filter (·.target == id)

/-- The nodes that stand directly in a subgraph, or in none. -/
def childrenOf (g : Graph) (parent : Option String) : List Node :=
  g.nodes.filter (·.parent == parent)

end Graph

end Flowchart
