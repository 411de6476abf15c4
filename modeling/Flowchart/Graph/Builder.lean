import Flowchart.Graph
import Flowchart.Label

/-!
# Building graphs

A `Builder` holds the nodes, edges and styles made so far, the number of the next id, and the
subgraphs that are open, innermost first. Its operations return the new builder, with the id they
gave out where they gave one. Every id carries the next number, so ids of one builder differ.

An edge that is there already is not added again, and an edge without a source or a target is none.

A builder whose limit of label length is of no use leaves its labels empty. It counts the labels it
makes, so that the log can have an entry for each of them.
-/

namespace Flowchart

/-- What the ids of a kind of nodes start with. -/
inductive IdFamily where
  /-- The source line and the number, or the number alone where there is no line. -/
  | line
  /-- A fixed text and the number. -/
  | named (head : String)
  deriving DecidableEq, Repr

/-- A graph under construction. -/
structure Builder where
  mode : LabelMode := .lenient
  limit : Option Int := some (LabelMode.defaultLimit .lenient)
  nodes : List Node := []
  edges : List Edge := []
  styles : List NodeStyle := []
  next : Nat := 1
  scopes : List String := []
  /-- How many labels have been made. -/
  labelled : Nat := 0
  deriving DecidableEq, Repr

namespace Builder

/-- A builder with nothing in it. -/
def empty (mode : LabelMode) (limit : Option Int) : Builder := ⟨mode, limit, [], [], [], 1, [], 0⟩

/-- The id with number `n`. -/
def idOf (family : IdFamily) (line : Option Int) (n : Nat) : String :=
  match family, line with
  | .line, some l => "L" ++ toString l ++ "_" ++ toString n
  | .line, none => "N" ++ toString n
  | .named head, _ => head ++ toString n

/-- The label of a text in this builder's mode and limit. -/
def label (b : Builder) (text : String) : String := Label.within b.mode b.limit text

/-- Adds a node in the innermost open subgraph. -/
def addNode (b : Builder) (shape : Shape) (text : String) (line : Option Int)
    (family : IdFamily := .line) : String × Builder :=
  let id := idOf family line b.next
  (id, { b with
    nodes := b.nodes ++ [⟨id, shape, b.label text, line, b.scopes.head?, text⟩]
    next := b.next + 1
    labelled := b.labelled + 1 })

/-- Adds a merge point in the innermost open subgraph. -/
def addMerge (b : Builder) : String × Builder :=
  let id := idOf (.named "M") none b.next
  (id, { b with
    nodes := b.nodes ++ [⟨id, .merge, "", none, b.scopes.head?, ""⟩]
    next := b.next + 1 })

/-- The label of an edge; a text that is empty gives none. -/
def edgeLabel (b : Builder) (text : Option String) : Option String :=
  match text with
  | none => none
  | some s => if s.isEmpty then none else some (b.label s)

/-- Adds an edge, unless an end is missing or the edge is there already. -/
def addEdge (b : Builder) (source target : String) (text : Option String := none)
    (style : EdgeStyle := .solid) : Builder :=
  if source.isEmpty || target.isEmpty then b
  else
    let label := b.edgeLabel text
    let b := { b with labelled := b.labelled + (if label.isSome then 1 else 0) }
    let edge : Edge := ⟨source, target, label, style⟩
    if b.edges.contains edge then b else { b with edges := b.edges ++ [edge] }

/-- Adds a subgraph and opens it. -/
def openSubgraph (b : Builder) (text : String) (line : Option Int) : String × Builder :=
  let id := idOf (.named "S") none b.next
  (id, { b with
    nodes := b.nodes ++ [⟨id, .subgraph, b.label text, line, b.scopes.head?, text⟩]
    next := b.next + 1
    scopes := id :: b.scopes
    labelled := b.labelled + 1 })

/-- Closes the innermost open subgraph, if any is open. -/
def closeSubgraph (b : Builder) : Builder := { b with scopes := b.scopes.tail }

/-- Adds a style entry. -/
def addStyle (b : Builder) (node css : String) : Builder :=
  { b with styles := b.styles ++ [⟨node, css⟩] }

/-- What goes to the log for the labels made so far: nothing, unless the limit is of no use. -/
def failures (b : Builder) : List Entry :=
  if b.limit.isSome then [] else List.replicate b.labelled Label.uselessLimit

/-- The graph built so far. -/
def build (b : Builder) : Graph := ⟨b.nodes, b.edges, "TD", b.styles⟩

/-- The graph built so far and what goes to the log with it. -/
def finish (b : Builder) : Logged Graph := ⟨b.build, b.failures⟩

end Builder

end Flowchart
