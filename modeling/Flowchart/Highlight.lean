import Flowchart.Graph
import Flowchart.Svg.Element
import Flowchart.Svg.Substitution
import Flowchart.Zoom

/-!
# Highlighting steps

A `Highlighter` shows the steps of a program on the drawing of its graph. For the nodes of the current
step's line it sets the style of their shapes and writes the values of variables into their labels;
before anything else is shown, all of that is undone. The first style of a shape is kept in an
attribute of the shape, the first text of a label in an attribute of the label, and the first state
of a label beside the node.

Events are functions from highlighters to highlighters: a drawing becomes ready, the container is
resized, a step is shown, the theme is changed, everything is cleared. A highlighter also collects
the elements it asked to be scrolled to.

A label that gets new text is emptied first, so whatever pointed into it points nowhere from then
on.
-/

namespace Flowchart

/-- The colours of a highlighter. -/
inductive Theme where
  | light
  | dark
  deriving DecidableEq, Repr

namespace Theme

/-- The theme of a name; the light one if there is none. -/
def ofName (name : String) : Theme := if name == "dark" then .dark else .light

/-- The name of a theme. -/
def name : Theme → String
  | .light => "light"
  | .dark => "dark"

/-- The style of highlighted shapes. -/
def shapeStyle : Theme → String
  | .light =>
    "fill: #dcfce7 !important; stroke: #16a34a !important; stroke-width: 3px !important;"
  | .dark =>
    "fill: #064e3b !important; stroke: #4ade80 !important; stroke-width: 3px !important;"

/-- The colour of a value in a label. -/
def valueColor : Theme → String
  | .light => "#16a34a"
  | .dark => "#4ade80"

/-- The colour of the note below a label. -/
def noteColor : Theme → String
  | .light => "#b45309"
  | .dark => "#fbbf24"

/-- The colour of the line above a note. -/
def noteBorder : Theme → String
  | .light => "#d97706"
  | .dark => "#fbbf24"

/-- The style of a value in a label. -/
def valueStyle (t : Theme) : String := "font-weight:900; color:" ++ t.valueColor

/-- The style of the note below a label. -/
def noteStyle (t : Theme) : String :=
  "font-size: 11px; color: " ++ t.noteColor ++ "; font-weight: bold; margin-top: 4px; " ++
    "border-top: 1px dashed " ++ t.noteBorder ++ "; padding-top: 4px;"

end Theme

/-- The attribute that keeps the first style of a shape. -/
def styleKept : String := "data-original-style"

/-- The attribute that keeps the first text of a label. -/
def textKept : String := "data-original"

/-- A node of the graph in the drawing: the id of its element, the ways to the element and to its
label as long as they lead there, and the label as it was before it first got new text. -/
structure Target where
  node : String
  elementId : String
  place : Option Path
  label : Option Path
  snapshot : Option Element := none

/-- A variable by name, with its value as text. -/
abbrev Binding := String × String

/-- A highlighter. -/
structure Highlighter where
  settings : Settings := {}
  theme : Theme := .light
  /-- Names of variables that the user gave values to. -/
  inputs : List String := []
  drawing : Option Element := none
  graph : Graph := {}
  targets : List Target := []
  isReady : Bool := false
  isCentered : Bool := false
  zoom : Float := 1.0
  /-- The line of the current step. -/
  current : Option Int := none
  bindings : List Binding := []
  highlighted : List String := []
  scrolls : List String := []

/-! ### Finding nodes in a drawing -/

/-- The node that the id of an element was made for: `flowchart-`, the node, a hyphen and a number; a
line feed may follow. -/
def nodeOfElementId? (id : String) : Option String := do
  let rest ← "flowchart-".toList.isPrefixOf? id.toList
  let back := rest.reverse
  let back := if back.head? = some '\n' then back.tail else back
  let digits := back.takeWhile Text.isDigit
  match back.drop digits.length with
  | '-' :: node =>
    if digits.isEmpty || node.isEmpty || node.contains '\n' then none
    else return String.ofList node.reverse
  | _ => none

/-- Whether an element draws a shape. -/
def isShape (e : Element) : Bool :=
  ["rect", "circle", "ellipse", "polygon", "path"].contains e.name

/-- Whether the element `e`, whose id was made for a node or not, draws the node `n`. -/
def draws (n : Node) (made : Bool) (e : Element) : Bool :=
  (n.shape == .subgraph && e.hasClass "cluster") || (made && e.hasClass "node")

/-- The node a drawing's element stands for, by its id. -/
def nodeOf? (g : Graph) (e : Element) : Option Node := do
  let id ← e.attr? "id"
  if id.isEmpty then none
  else
    let made := nodeOfElementId? id
    let n ← g.nodes.reverse.find? fun n => n.id == made.getD id
    if draws n made.isSome e then return n else none

/-- The nodes of a graph that stand in a drawing, in document order, each at its first element. -/
def targetsIn (g : Graph) (drawing : Element) : List Target :=
  drawing.descendants.foldl (fun found (path, e) =>
    match nodeOf? g e with
    | none => found
    | some n =>
      if found.any fun t => t.node == n.id then found
      else found ++ [⟨n.id, (e.attr? "id").getD "", some path, e.label?.map (path ++ ·), none⟩]) []

/-! ### Shapes -/

/-- Gives a shape the highlight style and keeps its own. -/
def paint (t : Theme) (e : Element) : Element :=
  if isShape e then
    let kept := if (e.attr? styleKept).isSome then e else
      e.setAttr styleKept ((e.attr? "style").getD "")
    kept.setAttr "style" t.shapeStyle
  else e

/-- Gives a shape its own style back. -/
def unpaint (e : Element) : Element :=
  match e.attr? styleKept with
  | none => e
  | some style =>
    if isShape e then
      let e := e.dropAttr styleKept
      if style.isEmpty then e.dropAttr "style" else e.setAttr "style" style
    else e

/-! ### Labels -/

/-- Tags of text inside a drawing, as opposed to text of a page. -/
def isDrawnText (e : Element) : Bool := e.name == "text" || e.name == "tspan"

/-- A tag for a part of a label: in the label's namespace, and for text of the label's kind. -/
def partTag (label : Element) (page : String) : String :=
  namespaceOf (label.tag.getD "") ++ (if isDrawnText label then "tspan" else page)

/-- The variables that a label's note lists: those that are inputs or assigned in the text. -/
def noted (inputs : List String) (bindings : List Binding) (text : List Char) : List String :=
  (bindings.filter fun (name, _) =>
    inputs.contains name || Substitution.isAssigned name.toList text).map fun (name, value) =>
    name ++ " = " ++ value

/-- A label with values in the place of names, and a note below. -/
def inject (t : Theme) (inputs : List String) (bindings : List Binding) (label : Element) :
    Element :=
  let plain := (label.attr? textKept).getD label.content
  let label := label.setAttr textKept plain
  let bindings := bindings.filter fun v => !v.1.isEmpty
  let (text, found) := Substitution.split (bindings.map fun v => v.1.toList) plain.toList
  let values := found.map fun (name, after) =>
    let value := (get? bindings (String.ofList name)).getD ""
    (⟨some (partTag label "span"), [("style", t.valueStyle)], some value,
      some (String.ofList after), []⟩ : Element)
  let note := match noted inputs bindings plain.toList with
    | [] => []
    | lines => [(⟨some (partTag label "div"),
        [("class", "annotation-div"), ("style", t.noteStyle)],
        some (", ".intercalate lines), none, []⟩ : Element)]
  { label with text := some (String.ofList text), children := values ++ note }

/-- A label as it was in its snapshot, where a text of it was kept. -/
def restore (snapshot label : Element) : Element :=
  match label.attr? textKept with
  | none => label
  | some plain =>
    { label with
      attrs := put snapshot.attrs textKept plain
      text := snapshot.text
      children := snapshot.children }

/-- Whether a way leads from inside the element at `label` further down. -/
def isBelow (label path : Path) : Bool := label.isPrefixOf path && label.length < path.length

/-- What still points somewhere when everything in the element at `label` is replaced. -/
def Target.cutBelow (label : Path) (t : Target) : Target :=
  let keep (p : Option Path) := p.filter fun path => !isBelow label path
  { t with place := keep t.place, label := keep t.label }

namespace Highlighter

variable (h : Highlighter)

/-- Changes the element at the end of a way in the drawing. -/
def modify (path : Option Path) (f : Element → Element) : Highlighter :=
  match path with
  | none => h
  | some p => { h with drawing := h.drawing.map fun d => d.modifyAt p f }

/-- The target of a node. -/
def target? (node : String) : Option Target := h.targets.find? fun t => t.node == node

/-- Gives the label at the end of a way new text. -/
def relabel (path : Path) (f : Element → Element) : Highlighter :=
  let h := h.modify (some path) f
  { h with targets := h.targets.map (Target.cutBelow path) }

/-- Restores the label of a node. -/
def restoreLabel (node : String) : Highlighter :=
  match h.target? node with
  | none => h
  | some t =>
    match t.snapshot, t.label with
    | some snapshot, some path =>
      match h.drawing.bind (·.at? path) with
      | some label =>
        if (label.attr? textKept).isSome then h.relabel path (restore snapshot) else h
      | none => h
    | _, _ => h

/-- Undoes what was done to a node. -/
def clearNode (node : String) : Highlighter :=
  match h.target? node with
  | none => h
  | some t => (h.modify t.place (Element.mapAll unpaint)).restoreLabel node

/-- Undoes what was done to all nodes. -/
def clear : Highlighter :=
  let h := (h.targets.map (·.node)).foldl clearNode h
  { h with highlighted := [] }

/-- Remembers the label of a node before it first gets new text. -/
def keepLabel (node : String) (label : Element) : Highlighter :=
  { h with targets := h.targets.map fun t =>
      if t.node == node then { t with snapshot := t.snapshot.or (some label) } else t }

/-- Writes values into the label of a node. -/
def injectLabel (node : String) : Highlighter :=
  match (h.target? node).bind (·.label) with
  | none => h
  | some path =>
    match h.drawing.bind (·.at? path) with
    | none => h
    | some label =>
      (h.keepLabel node label).relabel path (inject h.theme h.inputs h.bindings)

/-- Highlights a node. -/
def showNode (node : String) : Highlighter :=
  match h.target? node with
  | none => h
  | some t =>
    let h := h.modify t.place (Element.mapAll (paint h.theme))
    if h.bindings.isEmpty then h else h.injectLabel node

/-- The nodes of a line that stand in the drawing. -/
def nodesOn (line : Int) : List String :=
  ((h.graph.nodesOnLine (some line)).map (·.id)).filter fun id => (h.target? id).isSome

/-- Shows the current step and nothing else. -/
def apply : Highlighter :=
  let h := h.clear
  match h.current with
  | none => h
  | some line =>
    let nodes := h.nodesOn line
    { nodes.foldl showNode h with highlighted := nodes }

/-- Asks to scroll to the first highlighted node. -/
def scroll : Highlighter :=
  match h.highlighted with
  | [] => h
  | node :: _ =>
    { h with scrolls := h.scrolls ++ [((h.target? node).map (·.elementId)).getD ""] }

/-! ### Events -/

/-- A new drawing of a graph is there. -/
def graphReady (drawing : Element) (graph : Graph) : Highlighter :=
  let h := { h with
    drawing := some drawing
    graph := graph
    targets := targetsIn graph drawing
    highlighted := []
    isReady := true
    isCentered := false }
  if h.current.isSome then h.apply else h

/-- The container or the diagram has a new width. The first time after a new drawing that a step is
highlighted, it is scrolled to. -/
def resized (container chart : Option Number) : Highlighter :=
  let h := match container, chart with
    | some _, some _ => { h with zoom := fitZoom h.settings container chart }
    | _, _ => h
  if h.isReady && !h.isCentered && h.current.isSome then
    let h := h.apply
    if h.highlighted.isEmpty then h else { h.scroll with isCentered := true }
  else h

/-- A step becomes the current one. -/
def showStep (line : Int) (bindings : List Binding) : Highlighter :=
  let h := { h with current := some line, bindings := bindings }
  if h.isReady then
    let h := h.apply
    if h.isCentered then h.scroll else h
  else h

/-- The nodes that show the current step; none before there is a drawing. -/
def shown : List String := if h.isReady then h.highlighted else []

/-- The colours change. -/
def setTheme (theme : Theme) : Highlighter :=
  let h := { h with theme := theme }
  if h.isReady && h.current.isSome then h.apply else h

end Highlighter

end Flowchart
