import Flowchart.Proofs.Compile
import Flowchart.Proofs.Highlight.ElementIds
import Flowchart.Proofs.Highlight.History
import Mathlib.Data.List.Find

/-!
# Lines and their shapes

On the drawing of a graph that was made from a source, showing a step highlights the nodes of the
step's line and nothing else, whatever was shown before (`highlighted_showStep`). Which element draws a
node is said without the highlighter: the first one in document order whose id and classes fit
(`elementOf?`).

The ids that fit are those made for the node (`isMadeFor`): numbered ids, and numbered ids with a line
feed after them. Where no id ends in a line feed the numbered ones are all (`elementOf?_isMadeFor`);
where one does, it is taken for a node's all the same (`shown_lineFeedDrawn`).

## Main results

* `highlighted_showStep`: the nodes of a step's line are highlighted, and nothing else.
* `elementOf?_isMadeFor`: where no id ends in a line feed, the ids that fit are the numbered ones.
* `shown_lineFeedDrawn`: an id with a line feed is taken for a node's.
-/

namespace Flowchart

open Element Highlighter

/-- The way to the first element in document order that draws a node. -/
def elementOf? (form : String → String → Bool) (d : Element) (n : Node) : Option Path :=
  d.find? (drawnBy form n)

/-- The ids of the nodes of a line that an element draws, in the order of the nodes; merge points do
not count. -/
def drawnOn (form : String → String → Bool) (g : Graph) (d : Element) (line : Int) : List String :=
  (g.nodes.filter fun n =>
    n.line == some line && n.shape != .merge && (elementOf? form d n).isSome).map (·.id)

/-- Where no id ends in a line feed, the two forms of ids name the same elements. -/
theorem elementOf?_isMadeFor {d : Element} (h : ∀ place ∈ d.descendants, ∀ id ∈ place.2.attr? "id",
    id.toList.getLast? ≠ some '\n') (n : Node) :
    elementOf? isMadeFor d n = elementOf? isNumbered d n := by
  have hdrawn : ∀ place ∈ d.descendants, drawnBy isMadeFor n place.2 = drawnBy isNumbered n place.2 := by
    intro place hplace
    rw [drawnBy, drawnBy]
    cases hid : place.2.attr? "id" with
    | none => rfl
    | some id =>
        have hform : isMadeFor n.id id = isNumbered n.id id := by
          rw [isMadeFor, beq_eq_false_iff_ne.mpr (h place hplace id hid), Bool.false_and, Bool.or_false]
        rw [Option.any_some, Option.any_some, hform]
  rw [elementOf?, elementOf?, Element.find?, Element.find?, List.find?_congr hdrawn]

/-- The ids of a well-formed writable graph. -/
theorem hasNodeIds_of_writable {g : Graph} (h : g.Writable) (h' : g.WellFormed) : HasNodeIds g :=
  ⟨h.node_id, h'.nodup_ids⟩

/-- The node that an element draws is one of the graph. -/
theorem mem_nodes_of_nodeOf? {g : Graph} {e : Element} {n : Node} (h : nodeOf? g e = some n) :
    n ∈ g.nodes := by
  rw [nodeOf?] at h
  obtain ⟨id, -, h⟩ := Option.bind_eq_some_iff.mp h
  split_ifs at h
  obtain ⟨m, hm, h⟩ := Option.bind_eq_some_iff.mp h
  split_ifs at h
  obtain rfl := Option.some.inj h
  exact List.mem_reverse.mp (List.mem_of_find?_eq_some hm)

section Lines

variable {g : Graph} {d : Element}

/-- A node is listed at the element that draws it. -/
theorem HasNodeIds.elementOf?_eq (hg : HasNodeIds g) {n : Node} (hn : n ∈ g.nodes) :
    elementOf? isMadeFor d n = ((targetsIn g d).find? (·.node == n.id)).bind (·.place) := by
  have hstands : (fun place : Path × Element => standsFor g n.id place.2) =
      fun place => drawnBy isMadeFor n place.2 := funext fun place => hg.standsFor_eq hn place.2
  rw [elementOf?, Element.find?, find?_targetsIn, hstands]
  cases d.descendants.find? fun place => drawnBy isMadeFor n place.2 <;> rfl

/-- A node that is drawn has a target at the element that draws it. -/
theorem HasNodeIds.exists_target (hg : HasNodeIds g) {n : Node} (hn : n ∈ g.nodes) {p : Path}
    (hp : elementOf? isMadeFor d n = some p) :
    ∃ t ∈ targetsIn g d, t.node = n.id ∧ t.place = some p := by
  rw [hg.elementOf?_eq hn] at hp
  obtain ⟨t, ht, hplace⟩ := Option.bind_eq_some_iff.mp hp
  exact ⟨t, List.mem_of_find?_eq_some ht, by simpa using List.find?_some ht, hplace⟩

/-- A target is that of a node, at the element that draws it. -/
theorem HasNodeIds.exists_node (hg : HasNodeIds g) {t : Target} (ht : t ∈ targetsIn g d) :
    ∃ n ∈ g.nodes, n.id = t.node ∧ elementOf? isMadeFor d n = t.place := by
  obtain ⟨p, e, n, he, hn, rfl⟩ := exists_of_mem_targetsIn ht
  have hmem := mem_nodes_of_nodeOf? hn
  refine ⟨n, hmem, rfl, ?_⟩
  obtain ⟨u, hu⟩ : ∃ u, (targetsIn g d).find? (·.node == n.id) = some u := by
    rw [← Option.isSome_iff_exists, List.find?_isSome]
    exact ⟨_, ht, beq_self_eq_true _⟩
  have hnode : u.node = n.id := by simpa using List.find?_some hu
  have hsame : u = .first n.id (p, e) := eq_of_node_eq (List.mem_of_find?_eq_some hu) ht hnode
  rw [hg.elementOf?_eq hmem, hu, hsame]
  rfl

/-- The nodes of a line that are shown are those that some element draws. -/
theorem HasNodeIds.nodesShown_eq (hg : HasNodeIds g) (line : Int) :
    nodesShown g d line = drawnOn isMadeFor g d line := by
  rw [nodesShown, drawnOn, Graph.nodesOnLine, List.filter_map, List.filter_filter]
  congr 1
  refine List.filter_congr fun n hn => ?_
  have hdrawn : ((targetsIn g d).find? (·.node == n.id)).isSome =
      (elementOf? isMadeFor d n).isSome := by
    rw [hg.elementOf?_eq hn]
    cases hfound : (targetsIn g d).find? (·.node == n.id) with
    | none => rfl
    | some t =>
        obtain ⟨p, first, -, hp, -⟩ := exists_first_of_mem_targetsIn
          (List.mem_of_find?_eq_some hfound)
        rw [Option.bind_some, hp]
        rfl
  rw [Function.comp_apply, hdrawn, Bool.and_comm]

/-- The nodes on a line are those whose line it is. -/
theorem HasNodeIds.line_of_mem_drawnOn (hg : HasNodeIds g) {n : Node} (hn : n ∈ g.nodes)
    {line : Int} (h : n.id ∈ drawnOn isMadeFor g d line) : n.line = some line := by
  obtain ⟨m, hm, hid⟩ := List.mem_map.mp h
  obtain ⟨hmem, hfilter⟩ := List.mem_filter.mp hm
  simp only [Bool.and_eq_true, beq_iff_eq] at hfilter
  rw [← List.inj_on_of_nodup_map hg.nodup hmem hn hid]
  exact hfilter.1.1

/-- The look of a listed node while a line is shown. -/
theorem HasNodeIds.looksOn_eq (hg : HasNodeIds g) (line : Int) (look : Look) (node : String) :
    looksOn g d (some line) look node =
      if node ∈ drawnOn isMadeFor g d line then some look else none := by
  rw [← hg.nodesShown_eq]
  rfl

/-- What is highlighted in a drawing while a line is shown. -/
theorem Displays.shapes_on_line {line : Int} {look : Look} {h : Highlighter}
    (hd : Displays g d (looksOn g d (some line) look) h) (hg : HasNodeIds g) (hclean : Clean g d)
    (hplain : IsPlain d) :
    ∃ drawing, h.drawing = some drawing ∧
      (∀ n ∈ g.nodes, n.id ∈ drawnOn isMadeFor g d line → ∀ place ∈ elementOf? isMadeFor d n,
        ∀ q x, drawing.at? (place ++ q) = some x → isShape x = true →
        x.attr? "style" = some look.theme.shapeStyle) ∧
      (∀ q x, drawing.at? q = some x → ∀ t : Theme, x.attr? "style" = some t.shapeStyle →
        isShape x = true ∧ ∃ n ∈ g.nodes, n.id ∈ drawnOn isMadeFor g d line ∧
          ∃ place ∈ elementOf? isMadeFor d n, place <+: q) ∧
      ∀ n ∈ g.nodes, n.line ≠ some line → ∀ place ∈ elementOf? isMadeFor d n, ∀ q x,
        drawing.at? (place ++ q) = some x → ∀ t : Theme, x.attr? "style" ≠ some t.shapeStyle := by
  obtain ⟨-, snap, drawing, hdrawing, -, hdressed⟩ := hd
  refine ⟨drawing, hdrawing, ?_, ?_, ?_⟩
  · intro n hn hshown place hplace q x hx hshape
    obtain ⟨t, ht, hnode, hp⟩ := hg.exists_target hn hplace
    have hlook : looksOn g d (some line) look t.node = some look := by
      rw [hg.looksOn_eq, hnode, if_pos hshown]
    exact hdressed.style_eq hclean ht hp hlook hx hshape
  · intro q x hx t hstyle
    by_contra hcontra
    refine hdressed.style_ne hclean hplain hx (fun u hu p hp hpq hshape => ?_) t hstyle
    obtain ⟨n, hn, hnode, hplace⟩ := hg.exists_node hu
    rw [hg.looksOn_eq, ← hnode, if_neg]
    exact fun hshown => hcontra ⟨hshape, n, hn, hshown, p, hplace.trans hp, hpq⟩
  · intro n hn hline place hplace q x hx t
    obtain ⟨u, hu, hnode, hp⟩ := hg.exists_target hn hplace
    refine hdressed.style_ne hclean hplain hx (fun u' hu' p hp' hpq _ => ?_) t
    -- whatever node the element stands in is the one that `place` leads to
    have hsame : u' = u := by
      rcases List.prefix_or_prefix_of_prefix hpq (List.prefix_append place q) with hle | hle
      · exact hclean.eq_of_prefix hu' hu hp' hp hle
      · exact (hclean.eq_of_prefix hu hu' hp hp' hle).symm
    rw [hg.looksOn_eq, hsame, hnode, if_neg]
    exact fun hshown => hline (hg.line_of_mem_drawnOn hn hshown)

end Lines

/-- What showing a step highlights in the drawing of a source's graph, after any events: it gives the
ids of the nodes of the step's line that an element draws. The shapes in these elements have the style of
the theme that was set last, nothing else has the style of any theme, and so nothing in the elements of
nodes of other lines, whether they were shown before or not. -/
theorem highlighted_showStep (p : Parsers) (s : Settings) (code label : Option String)
    (loaded : Grammars) (d : Element) (h₀ : Highlighter) (events : List Event) (line : Int)
    (bindings : List Binding) (hclean : Clean ((lower p s code label).run loaded).value.1 d)
    (hplain : IsPlain d) :
    let g := ((lower p s code label).run loaded).value.1
    let theme := (events.foldl (fun view e => e.tell view) h₀.view).2.theme
    let h := ((h₀.graphReady d g).after events).showStep line bindings
    h.shown = drawnOn isMadeFor g d line ∧
      ∃ drawing, h.drawing = some drawing ∧
        (∀ n ∈ g.nodes, n.id ∈ h.shown → ∀ place ∈ elementOf? isMadeFor d n, ∀ q x,
          drawing.at? (place ++ q) = some x → isShape x = true →
          x.attr? "style" = some theme.shapeStyle) ∧
        (∀ q x, drawing.at? q = some x → ∀ t : Theme, x.attr? "style" = some t.shapeStyle →
          isShape x = true ∧
            ∃ n ∈ g.nodes, n.id ∈ h.shown ∧ ∃ place ∈ elementOf? isMadeFor d n, place <+: q) ∧
        ∀ n ∈ g.nodes, n.line ≠ some line → ∀ place ∈ elementOf? isMadeFor d n, ∀ q x,
          drawing.at? (place ++ q) = some x → ∀ t : Theme, x.attr? "style" ≠ some t.shapeStyle := by
  intro g theme h
  have hg : HasNodeIds g := hasNodeIds_of_writable (returns_lower p s code label loaded)
    (returns_wellFormed p s code label loaded)
  obtain ⟨-, hview, hstart⟩ := displays_graphReady hclean h₀
  obtain ⟨hviews, hready⟩ := view_after hstart events
  have hbefore : Displays g d _ ((h₀.graphReady d g).after events) := displays_after hclean h₀ events
  let e : Event := .stepShown line bindings
  have htold := (view_handle hready e).1
  rw [hviews, hview] at htold
  have hshown : h.shown = drawnOn isMadeFor g d line := by
    have hhighlighted := hbefore.highlighted_handle hclean hready (e := e) nofun rfl
    have hisReady : h.isReady = true := (view_handle hready e).2
    rw [shown, if_pos hisReady, ← hg.nodesShown_eq]
    rw [htold] at hhighlighted
    exact hhighlighted
  have hafter : Displays g d (looksOn g d (some line) (e.tell
      (events.foldl (fun view e => e.tell view) h₀.view)).2) h := by
    have heffect : e.isEffective ((h₀.graphReady d g).after events) = true := rfl
    have hhandled := hbefore.handle hclean hready e
    rw [if_pos heffect, htold] at hhandled
    exact hhandled
  rw [hshown]
  exact ⟨rfl, hafter.shapes_on_line hg hclean hplain⟩

/-! ### The two statements as a source -/

/-- Parsers that read the two statements from their source. -/
def twoStatements : Parsers where
  abstract _ := .tree (.compound "Module" none "" none none
    [.leaf "Assign" (some ⟨1, 0, some 1, some 5⟩) none none false,
      .leaf "Expr" (some ⟨2, 0, some 2, some 8⟩)
        (some (.leaf "Call" (some ⟨2, 0, some 2, some 8⟩) none none false)) none false] [] [] [])
  concrete _ _ := .refused ""
  missing _ := none

/-- Two statements are drawn as two nodes. -/
theorem lower_twoStatements :
    ((lower twoStatements {} (some "x = y\nprint(x)") (some "python")).run {}).value.1 = twoNodes := by
  decide +kernel

/-- The second statement is shown first, and then the first one in other colours. -/
theorem highlighted_showStep_twoNodes :
    let g := ((lower twoStatements {} (some "x = y\nprint(x)") (some "python")).run {}).value.1
    let h := ((({} : Highlighter).graphReady twoNodesDrawn g).after
      [.stepShown 2 [("x", "2")], .themeSet .dark]).showStep 1 []
    Clean g twoNodesDrawn ∧ IsPlain twoNodesDrawn ∧ h.shown = ["L1_1"] ∧
      ∃ drawing, h.drawing = some drawing ∧
        (∀ q x, drawing.at? ([0] ++ q) = some x → isShape x = true →
          x.attr? "style" = some Theme.dark.shapeStyle) ∧
        ∀ q x, drawing.at? ([1] ++ q) = some x → ∀ t : Theme,
          x.attr? "style" ≠ some t.shapeStyle := by
  intro g h
  have hg : g = twoNodes := lower_twoStatements
  have hclean : Clean g twoNodesDrawn := hg ▸ clean_twoNodesDrawn
  have hplain : IsPlain twoNodesDrawn := by decide +kernel
  obtain ⟨hshown, drawing, hdrawing, hstyle, -, hother⟩ := highlighted_showStep twoStatements {}
    (some "x = y\nprint(x)") (some "python") {} twoNodesDrawn {}
    [.stepShown 2 [("x", "2")], .themeSet .dark] 1 [] hclean hplain
  have hfirst : h.shown = ["L1_1"] := by
    rw [hshown, lower_twoStatements]
    decide +kernel
  refine ⟨hclean, hplain, hfirst, drawing, hdrawing, fun q x hx hshape => ?_, fun q x hx => ?_⟩
  · refine hstyle ⟨"L1_1", .process, "x = y", some 1, none, "x = y"⟩ ?_ ?_ [0] ?_ q x hx hshape
    · rw [lower_twoStatements]
      decide
    · exact hfirst ▸ List.mem_singleton_self _
    · decide +kernel
  · refine hother ⟨"L2_2", .process, "print(x)", some 2, none, "print(x)"⟩ ?_ (by decide) [1] ?_ q x hx
    · rw [lower_twoStatements]
      decide
    · decide +kernel

/-- The first statement drawn by an element whose id ends in a line feed. -/
def lineFeedDrawn : Element :=
  ⟨some "svg", [], none, none, [
    ⟨some "g", [("id", "flowchart-L1_1-0\n"), ("class", "node")], none, none, [
      ⟨some "rect", [], none, none, []⟩]⟩]⟩

/-- No element has a numbered id, and yet the statement is shown. -/
theorem shown_lineFeedDrawn :
    let g := ((lower twoStatements {} (some "x = y\nprint(x)") (some "python")).run {}).value.1
    let h := (({} : Highlighter).graphReady lineFeedDrawn g).showStep 1 []
    Clean g lineFeedDrawn ∧ IsPlain lineFeedDrawn ∧ h.shown = ["L1_1"] ∧
      drawnOn isNumbered g lineFeedDrawn 1 = [] := by
  intro g h
  have hg : g = twoNodes := lower_twoStatements
  refine ⟨?_, by decide +kernel, by decide +kernel, by decide +kernel⟩
  rw [hg]
  constructor <;> decide +kernel

end Flowchart
