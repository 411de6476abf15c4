import Flowchart.Graph
import Flowchart.Json.Writer
import Flowchart.Settings
import Flowchart.Text.Blank
import Flowchart.Text.Search

/-!
# Diagram text

A graph as Mermaid flowchart text. The text has a line for every node, then one for every edge, then
one for every style entry; a subgraph is a line of its own, its direction, its nodes and a line
`end`. `assemble` puts the header before the body and forces the direction top-down; a graph whose
body says too little gives no diagram.
-/

namespace Flowchart

/-- What stands before and after the quoted label of a node. -/
def Shape.brackets : Shape → String × String
  | .decision => ("\x7b", "\x7d")
  | .loop => ("\x7b\x7b", "\x7d\x7d")
  | .terminal => ("((", "))")
  | .stadium => ("([", "])")
  | .subroutine => ("[[", "]]")
  | .flag => (">", "]")
  | .database => ("[(", ")]")
  | .process | .merge | .subgraph => ("[", "]")

namespace Diagram

/-- The line of a node. -/
def node (n : Node) : String :=
  if n.shape = .merge then n.id ++ "(( ))"
  else n.id ++ n.shape.brackets.1 ++ "\"" ++ n.label ++ "\"" ++ n.shape.brackets.2

/-- The arrow of an edge style. -/
def arrow : EdgeStyle → String
  | .solid => "-->"
  | .dashed => "-.->"

/-- The line of an edge; an empty label is left out. -/
def edge (e : Edge) : String :=
  match e.label with
  | none => e.source ++ " " ++ arrow e.style ++ " " ++ e.target
  | some label =>
    if label.isEmpty then e.source ++ " " ++ arrow e.style ++ " " ++ e.target
    else e.source ++ " " ++ arrow e.style ++ "|\"" ++ label ++ "\"| " ++ e.target

/-- The indentation of depth `depth`. -/
def indent (depth : Nat) : String := String.ofList (List.replicate (2 * depth) ' ')

/-- The lines of the nodes in `parent`, at indentation `depth`, down to `fuel` levels of
subgraphs. -/
def scope (g : Graph) : (fuel : Nat) → (parent : Option String) → (depth : Nat) → List String
  | 0, _, _ => []
  | fuel + 1, parent, depth =>
    (g.childrenOf parent).flatMap fun n =>
      if n.shape = .subgraph then
        (indent depth ++ "subgraph " ++ n.id ++ " [\"" ++ n.label ++ "\"]") ::
          (indent (depth + 1) ++ "direction TB") ::
          (scope g fuel (some n.id) (depth + 1) ++ [indent depth ++ "end"])
      else [indent depth ++ node n]

/-- The lines of a graph after the first. Subgraphs that contain each other in a circle stand in no
diagram, so there are at most as many levels as nodes. -/
def bodyLines (g : Graph) : List String :=
  scope g (g.nodes.length + 1) none 1 ++
    g.edges.map (fun e => indent 1 ++ edge e) ++
    g.styles.map fun s => indent 1 ++ "style " ++ s.node ++ " " ++ s.css

/-- Lines with a line feed between them and at the end. -/
def joinLines (lines : List String) : String := "\n".intercalate lines ++ "\n"

/-- The flowchart text of a graph. -/
def render (g : Graph) : String := joinLines (("flowchart " ++ g.direction) :: bodyLines g)

/-! ### Forcing the direction -/

/-- A directive: its keywords, the directions to be replaced, and the one put in their place. -/
structure Directive where
  keywords : List String
  directions : List String
  forced : String

/-- The directive of a whole diagram. -/
def flowchartDirective : Directive := ⟨["flowchart", "graph"], ["LR", "RL", "BT", "TB"], "TD"⟩

/-- The directive of a subgraph. -/
def subgraphDirective : Directive := ⟨["direction"], ["LR", "RL", "BT"], "TB"⟩

/-- What follows the first of the words that the text starts with. -/
def afterWord? (words : List String) (cs : List Char) : Option (List Char) :=
  words.findSome? fun w => w.toList.isPrefixOf? cs

/-- If a directive with a direction to be replaced stands here, the number of characters before the
blanks in front of the direction, and the number up to its end. -/
def directiveHere? (d : Directive) (cs : List Char) : Option (Nat × Nat) := do
  let afterKeyword ← afterWord? d.keywords (cs.dropWhile Text.isBlank)
  let direction := afterKeyword.dropWhile Text.isBlank
  if direction.length < afterKeyword.length then
    let rest ← afterWord? d.directions direction
    if Text.wordAt rest.head? then none
    else return (cs.length - afterKeyword.length, cs.length - rest.length)
  else none

/-- Replaces the directions of a directive at the starts of lines. `atStart` says that a line starts
here; `skip` characters still belong to a directive that has been written. -/
def forceFrom (d : Directive) : (atStart : Bool) → (skip : Nat) → List Char → List Char
  | _, _, [] => []
  | _, skip + 1, c :: cs => forceFrom d (c == '\n') skip cs
  | atStart, 0, c :: cs =>
    let found := if atStart then directiveHere? d (c :: cs) else none
    match found with
    | some (kept, covered) =>
      (c :: cs).take kept ++ ' ' :: d.forced.toList ++ forceFrom d (c == '\n') (covered - 1) cs
    | none => c :: forceFrom d (c == '\n') 0 cs

/-- The text with every flowchart directive turned top-down and every subgraph direction turned
top to bottom. -/
def forceTopDown (text : String) : String :=
  String.ofList <|
    forceFrom subgraphDirective true 0 (forceFrom flowchartDirective true 0 text.toList)

/-! ### Header and assembly -/

/-- The configuration in the header. -/
def configuration (s : Settings) : Json :=
  .obj [
    ("flowchart", .obj [
      ("defaultRenderer", .str s.renderer),
      ("nodeSpacing", .int s.nodeSpacing),
      ("rankSpacing", .int s.rankSpacing)]),
    ("maxTextSize", .int s.maxTextSize),
    ("themeVariables", .obj [
      ("clusterBkg", .str "transparent"),
      ("clusterBorder", .str "transparent"),
      ("mainBkg", .str "transparent"),
      ("nodeBkg", .str "transparent")])]

/-- The line before a diagram. -/
def header (s : Settings) : String :=
  "%%\x7binit: " ++ (configuration s).write Json.tight ++ " \x7d%%\n"

/-- A text without its first line. -/
def body (text : String) : List Char := (text.toList.dropWhile (· != '\n')).tail

/-- Whether the body of a graph's text says too little to be shown. -/
def isDegenerate (s : Settings) (g : Graph) : Bool :=
  g.isEmpty || decide (((Text.trim (body (render g))).length : Int) < s.minDiagramChars)

/-- The diagram of a graph, empty if there is too little to show. -/
def assemble (s : Settings) (g : Graph) : String :=
  if isDegenerate s g then "" else header s ++ forceTopDown (render g)

/-- The diagram shown when nothing could be drawn. -/
def fallback : String :=
  "flowchart TD\n  nError[\"Analysis Incomplete\"] --> nHelp[\"Try simpler code\"]\n"

end Diagram

end Flowchart
