import Flowchart.Proofs.Diagram.Reading

/-!
# The text of a diagram determines its graph

The text of a diagram says what its graph is. `nodesOf` puts together what the lines of nodes and
subgraphs say: an `end` closes the subgraph that was opened last, and a node stands in the one that
is open. What is read of a diagram is what was written (`read_bodyLines`), so two graphs with one
text are the same, up to what no line tells: the lines and source texts of nodes, and whether an
edge without a label has an empty one.

`render_determines` is the main result. It also says what the text is: an outline of all nodes, then
the edges, then the styles.

## From lines back to nodes

What is drawn while a subgraph is open stands in it and comes right behind it in the list of nodes, and
the text has the nodes in this order. Reading them back needs a stack of the subgraphs that are open,
and no more. That the lines are those of the text is a matter of line feeds: no line holds one
(`oneLine_bodyLines`), so texts are the same only if their lines are (`joinLines_inj`).

## Main results

* `nodesOf_outlined`: the nodes are read from their outline.
* `read_bodyLines`: what is read of a diagram is what was written.
* `render_determines`: two graphs with one text are the same, and what the text is.
-/

namespace Flowchart

namespace Diagram

/-! ### Reading lines one after another -/

/-- The nodes that lines tell of. A node stands in the subgraph that was opened last and is not
closed. -/
def nodesOf : (scopes : List String) → List Line → List Node
  | _, [] => []
  | scopes, .node id shape label :: rest =>
    ⟨id, shape, label, none, scopes.head?, ""⟩ :: nodesOf scopes rest
  | scopes, .scope id label :: rest =>
    ⟨id, .subgraph, label, none, scopes.head?, ""⟩ :: nodesOf (id :: scopes) rest
  | scopes, .close :: rest => nodesOf scopes.tail rest
  | scopes, .direction :: rest | scopes, .edge _ _ _ _ :: rest | scopes, .style _ _ :: rest =>
    nodesOf scopes rest

end Diagram

/-- What a diagram tells of a node: not its line, and not the text that its label was made from. -/
def Node.written (n : Node) : Node := { n with line := none, raw := "" }

/-- What a diagram tells of an edge: an empty label is none. -/
def Edge.written (e : Edge) : Edge := { e with label := e.label.filter fun l => !l.isEmpty }

/-- A node whose id and label can be told from what stands around them. -/
def Node.Legible (n : Node) : Prop :=
  IsId n.id ∧ (∀ c ∈ n.label.toList, Text.isQuiet c = true) ∧ (n.shape = .merge → n.label = "")

/-- A graph whose ids and labels can be told from what stands around them. -/
structure Graph.Legible (g : Graph) : Prop where
  node : ∀ n ∈ g.nodes, n.Legible
  source : ∀ e ∈ g.edges, IsId e.source
  target : ∀ e ∈ g.edges, IsId e.target
  edge_label : ∀ e ∈ g.edges, ∀ l ∈ e.label, ∀ c ∈ l.toList, Text.isQuiet c = true
  style_node : ∀ s ∈ g.styles, IsId s.node

namespace Builder.Made

variable {b : Builder}

/-- Operations make nodes with ids and with labels that hold no quote. -/
theorem legible_nodes (h : Made Shape.IsPlain b) : ∀ n ∈ b.nodes, n.Legible := by
  induction h with
  | empty mode limit => exact fun n hn => absurd hn List.not_mem_nil
  | @node b shape family text line _ hshape hfamily ih =>
      rw [addNode_nodes, List.forall_mem_append, List.forall_mem_singleton]
      exact ⟨ih, isId_idOf hfamily line b.next, fun c hc => Label.isQuiet_of_mem_within hc,
        fun heq => absurd heq hshape.1⟩
  | @merge b _ ih =>
      rw [addMerge_nodes, List.forall_mem_append, List.forall_mem_singleton]
      exact ⟨ih, isId_idOf IdFamily.proper_merge none b.next, nofun, fun _ => rfl⟩
  | @openSubgraph b text line _ ih =>
      rw [openSubgraph_nodes, List.forall_mem_append, List.forall_mem_singleton]
      exact ⟨ih, isId_idOf IdFamily.proper_subgraph none b.next,
        fun c hc => Label.isQuiet_of_mem_within hc, nofun⟩
  | closeSubgraph _ ih => exact ih
  | edge text style _ _ _ ih =>
      rw [addEdge_nodes]
      exact ih
  | style css _ _ ih => exact ih

/-- Operations make edges with labels that hold no quote. -/
theorem legible_edges {shapes : Shape → Prop} (h : Made shapes b) :
    ∀ e ∈ b.edges, ∀ l ∈ e.label, ∀ c ∈ l.toList, Text.isQuiet c = true := by
  induction h with
  | empty mode limit => exact fun e he => absurd he List.not_mem_nil
  | @edge b source target text style _ _ _ ih =>
      rcases addEdge_edges_eq b source target text style with heq | ⟨-, heq⟩
      · rw [heq]
        exact ih
      · rw [heq, List.forall_mem_append, List.forall_mem_singleton]
        exact ⟨ih, fun l hl => isQuiet_of_mem_edgeLabel hl⟩
  | node _ _ _ _ _ ih | merge _ ih | openSubgraph _ _ _ ih | closeSubgraph _ ih
  | style _ _ _ ih => exact ih

/-- Operations make legible graphs. -/
theorem legible (h : Made Shape.IsPlain b) : b.build.Legible := by
  have hnodes := h.legible_nodes
  have hids : ∀ id ∈ b.ids, IsId id := by
    intro id hid
    obtain ⟨n, hn, rfl⟩ := mem_ids.mp hid
    exact (hnodes n hn).1
  exact ⟨hnodes, fun e he => hids _ (h.sound.source_mem e he),
    fun e he => hids _ (h.sound.target_mem e he), h.legible_edges,
    fun s hs => hids _ (h.sound.style_mem s hs)⟩

end Builder.Made

namespace Diagram

/-- Reading the outline of nodes gives the nodes. -/
theorem nodesOf_outlined {p : Option String} {d : Nat} {F : List Node} {lines : List String}
    (h : Outlined p d F lines) (hF : ∀ n ∈ F, n.Legible) {scopes : List String}
    (hscopes : scopes.head? = p) (rest : List Line) : nodesOf scopes (lines.map Line.read ++ rest) =
      F.map Node.written ++ nodesOf scopes rest := by
  induction h generalizing scopes rest with
  | nil => rfl
  | @leaf p d n F lines hparent hshape _ ih =>
      rw [List.forall_mem_cons] at hF
      obtain ⟨⟨hid, hlabel, hmerge⟩, hF⟩ := hF
      rw [List.map_cons, List.cons_append, Line.read_node hid hlabel hshape hmerge, nodesOf,
        ih hF hscopes, hscopes, ← hparent]
      rfl
  | @scope p d n inner F lines lines' hparent hshape _ _ ih ih' =>
      rw [List.forall_mem_cons, List.forall_mem_append] at hF
      obtain ⟨⟨hid, hlabel, -⟩, hinner, hF⟩ := hF
      simp only [List.map_cons, List.map_append, List.cons_append, List.append_assoc,
        Line.read_scopeLine hid hlabel, Line.read_direction, Line.read_close, nodesOf]
      rw [ih hinner rfl, nodesOf, List.tail_cons, ih' hF hscopes, hscopes, ← hparent, ← hshape]
      rfl

/-- The outline of nodes tells of no edge and of no style. -/
theorem outlined_nodes_only {p : Option String} {d : Nat} {F : List Node} {lines : List String}
    (h : Outlined p d F lines) (hF : ∀ n ∈ F, n.Legible) :
    (lines.map Line.read).filterMap Line.edge? = [] ∧
      (lines.map Line.read).filterMap Line.style? = [] := by
  induction h with
  | nil => exact ⟨rfl, rfl⟩
  | @leaf p d n F lines hparent hshape _ ih =>
      rw [List.forall_mem_cons] at hF
      obtain ⟨⟨hid, hlabel, hmerge⟩, hF⟩ := hF
      rw [List.map_cons, Line.read_node hid hlabel hshape hmerge]
      exact ih hF
  | @scope p d n inner F lines lines' hparent hshape _ _ ih ih' =>
      rw [List.forall_mem_cons, List.forall_mem_append] at hF
      obtain ⟨⟨hid, hlabel, -⟩, hinner, hF⟩ := hF
      obtain ⟨hedge, hstyle⟩ := ih hinner
      obtain ⟨hedge', hstyle'⟩ := ih' hF
      simp only [List.map_cons, List.map_append, Line.read_scopeLine hid hlabel,
        Line.read_direction, Line.read_close, List.filterMap_cons, List.filterMap_append,
        Line.edge?, Line.style?, hedge, hstyle, hedge', hstyle', List.append_nil, and_self]

/-! ### From the text to the lines -/

/-- A text without a line feed. -/
def OneLine (s : String) : Prop := '\n' ∉ s.toList

instance : DecidablePred OneLine := fun s => inferInstanceAs (Decidable ('\n' ∉ s.toList))

/-- Texts without line ends have none together. -/
theorem OneLine.append {s t : String} (h : OneLine s) (h' : OneLine t) : OneLine (s ++ t) := by
  rw [OneLine, String.toList_append, List.mem_append, not_or]
  exact ⟨h, h'⟩

/-- The space before a line has no line end. -/
theorem oneLine_indent (depth : Nat) : OneLine (indent depth) := by
  rw [OneLine, indent, String.toList_ofList]
  exact fun h => absurd (List.eq_of_mem_replicate h) (by decide)

/-- A text of quiet characters has no line end. -/
theorem oneLine_of_quiet {s : String} (h : ∀ c ∈ s.toList, Text.isQuiet c = true) : OneLine s :=
  fun hmem => absurd (h _ hmem) (by decide)

/-- An id has no line end. -/
theorem oneLine_of_isId {s : String} (h : IsId s) : OneLine s :=
  oneLine_of_quiet fun c hc => isQuiet_of_isIdChar (h.isIdChar c hc)

/-- A node is written on one line. -/
theorem oneLine_node {n : Node} (h : n.Legible) : OneLine (node n) := by
  have hbrackets : OneLine n.shape.brackets.1 ∧ OneLine n.shape.brackets.2 := by
    cases n.shape <;> decide
  have hquote : OneLine "\"" := by decide
  have hrings : OneLine "(( ))" := by decide
  rw [node]
  split_ifs
  · exact (oneLine_of_isId h.1).append hrings
  · exact ((((oneLine_of_isId h.1).append hbrackets.1).append hquote).append
      (oneLine_of_quiet h.2.1)).append hquote |>.append hbrackets.2

/-- An edge is written on one line. -/
theorem oneLine_edge {e : Edge} (hs : IsId e.source) (ht : IsId e.target)
    (hlabel : ∀ l ∈ e.label, ∀ c ∈ l.toList, Text.isQuiet c = true) : OneLine (edge e) := by
  have hspace : OneLine " " := by decide
  have harrow : OneLine (arrow e.style) := by cases e.style <;> decide
  have hstart := ((oneLine_of_isId hs).append hspace).append harrow
  have hplain := (hstart.append hspace).append (oneLine_of_isId ht)
  rw [edge]
  cases hl : e.label with
  | none => exact hplain
  | some l =>
      have hbefore : OneLine "|\"" := by decide
      have hafter : OneLine "\"| " := by decide
      change OneLine (if l.isEmpty then _ else _ : String)
      split_ifs
      · exact hplain
      · exact ((hstart.append hbefore).append (oneLine_of_quiet (hlabel l hl))).append hafter
          |>.append (oneLine_of_isId ht)

/-- The outline of nodes has one line for each of its lines. -/
theorem oneLine_outlined {p : Option String} {d : Nat} {F : List Node} {lines : List String}
    (h : Outlined p d F lines) (hF : ∀ n ∈ F, n.Legible) : ∀ line ∈ lines, OneLine line := by
  induction h with
  | nil => simp
  | @leaf p d n F lines hparent hshape _ ih =>
      rw [List.forall_mem_cons] at hF ⊢
      exact ⟨(oneLine_indent d).append (oneLine_node hF.1), ih hF.2⟩
  | @scope p d n inner F lines lines' hparent hshape _ _ ih ih' =>
      rw [List.forall_mem_cons, List.forall_mem_append] at hF
      obtain ⟨⟨hid, hlabel, -⟩, hinner, hF⟩ := hF
      have hkeyword : OneLine "subgraph " := by decide
      have hbefore : OneLine " [\"" := by decide
      have hafter : OneLine "\"]" := by decide
      have hdirection : OneLine "direction TB" := by decide
      have hend : OneLine "end" := by decide
      have hopen : OneLine (scopeLine n) := (((hkeyword.append (oneLine_of_isId hid)).append
        hbefore).append (oneLine_of_quiet hlabel)).append hafter
      simp only [List.forall_mem_cons, List.forall_mem_append]
      exact ⟨(oneLine_indent d).append hopen, (oneLine_indent _).append hdirection, ih hinner,
        (oneLine_indent d).append hend, ih' hF⟩

/-- Texts without line feeds can be told from the text they are joined to. -/
theorem flatMap_feed_inj {ls ls' : List (List Char)} (h : ∀ l ∈ ls, '\n' ∉ l)
    (h' : ∀ l ∈ ls', '\n' ∉ l) (heq : ls.flatMap (· ++ ['\n']) = ls'.flatMap (· ++ ['\n'])) :
    ls = ls' := by
  have hother : ∀ {l : List Char}, '\n' ∉ l → ∀ c ∈ l, (c != '\n') = true := by
    intro l hl c hc
    exact bne_iff_ne.mpr fun heq => hl (heq ▸ hc)
  have hstop : ('\n' != '\n') = false := by decide
  induction ls generalizing ls' with
  | nil =>
      cases ls' with
      | nil => rfl
      | cons l ls' => simp at heq
  | cons l ls ih =>
      cases ls' with
      | nil => simp at heq
      | cons l' ls' =>
          rw [List.forall_mem_cons] at h h'
          simp only [List.flatMap_cons, List.append_assoc, List.singleton_append] at heq
          have hfirst := congrArg (List.takeWhile (· != '\n')) heq
          have hrest := congrArg (List.dropWhile (· != '\n')) heq
          rw [Line.takeWhile_append_stop (hother h.1) hstop,
            Line.takeWhile_append_stop (hother h'.1) hstop] at hfirst
          rw [Line.dropWhile_append_stop (hother h.1) hstop,
            Line.dropWhile_append_stop (hother h'.1) hstop] at hrest
          rw [hfirst, ih h.2 h'.2 (List.cons.inj hrest).2]

/-- Lines are read from their text, if none has a line end in it. -/
theorem joinLines_inj {l l' : String} {ls ls' : List String} (h : ∀ s ∈ l :: ls, OneLine s)
    (h' : ∀ s ∈ l' :: ls', OneLine s) (heq : joinLines (l :: ls) = joinLines (l' :: ls')) :
    l :: ls = l' :: ls' := by
  have htext := congrArg String.toList heq
  rw [toList_joinLines, toList_joinLines] at htext
  refine List.map_injective_iff.mpr (fun _ _ => String.toList_inj.mp) (flatMap_feed_inj ?_ ?_ htext)
  · exact List.forall_mem_map.mpr h
  · exact List.forall_mem_map.mpr h'

/-! ### Whole diagrams -/

/-- The lines of edges and styles, read, tell of no node. -/
theorem nodesOf_eq_nil (scopes : List String) {lines : List Line}
    (h : ∀ l ∈ lines, l.edge?.isSome ∨ l.style?.isSome) : nodesOf scopes lines = [] := by
  induction lines with
  | nil => rfl
  | cons l lines ih =>
      rw [List.forall_mem_cons] at h
      obtain ⟨hl, hlines⟩ := h
      cases l with
      | edge | style => exact ih hlines
      | _ => simp [Line.edge?, Line.style?] at hl

section Body
variable {b : Builder} (h : Builder.Made Shape.IsPlain b)
include h

/-- A diagram is the outline of its nodes, a line for each edge, and one for each style. -/
theorem exists_bodyLines : ∃ lines, Outlined none 1 b.nodes lines ∧
    (∀ fuel, b.nodes.length < fuel → scope b.build fuel none 1 = lines) ∧
    bodyLines b.build = lines ++ b.edges.map (fun e => indent 1 ++ edge e) ++
      b.styles.map fun s => indent 1 ++ "style " ++ s.node ++ " " ++ s.css := by
  obtain ⟨lines, hlines, hfuel⟩ := exists_outlined h
  refine ⟨lines, hlines, hfuel, ?_⟩
  rw [bodyLines, hfuel (b.build.nodes.length + 1) (Nat.lt_succ_self _)]
  rfl

/-- The lines of a graph tell of its nodes, its edges and its styles. -/
theorem read_bodyLines :
    nodesOf [] ((bodyLines b.build).map Line.read) = b.nodes.map Node.written ∧
    ((bodyLines b.build).map Line.read).filterMap Line.edge? = b.edges.map Edge.written ∧
    ((bodyLines b.build).map Line.read).filterMap Line.style? = b.styles := by
  obtain ⟨hnode, hsource, -, hlabel, hstyle⟩ := h.legible
  obtain ⟨lines, hlines, -, hbody⟩ := exists_bodyLines h
  obtain ⟨hnoedge, hnostyle⟩ := outlined_nodes_only hlines hnode
  let edges : List Line := b.edges.map fun e =>
    .edge e.source e.target (e.label.filter fun l => !l.isEmpty) e.style
  let styles : List Line := b.styles.map fun s => .style s.node s.css
  have hread : (bodyLines b.build).map Line.read = lines.map Line.read ++ (edges ++ styles) := by
    have hedges : (b.edges.map fun e => indent 1 ++ edge e).map Line.read = edges := by
      rw [List.map_map]
      exact List.map_congr_left fun e he => Line.read_edge (hsource e he) (hlabel e he) 1
    have hstyles : (b.styles.map fun s => indent 1 ++ "style " ++ s.node ++ " " ++ s.css).map
        Line.read = styles := by
      rw [List.map_map]
      refine List.map_congr_left fun s hs => ?_
      have hline : indent 1 ++ "style " ++ s.node ++ " " ++ s.css =
          indent 1 ++ ("style " ++ s.node ++ " " ++ s.css) := by simp only [String.append_assoc]
      rw [Function.comp_apply, hline, Line.read_style (hstyle s hs)]
    rw [hbody, List.map_append, List.map_append, hedges, hstyles, List.append_assoc]
  have hedge : edges.filterMap Line.edge? = b.edges.map Edge.written ∧
      edges.filterMap Line.style? = [] := by
    constructor <;> simp [edges, List.filterMap_map, Function.comp_def, Line.edge?, Line.style?,
      Edge.written]
  have hcss : styles.filterMap Line.edge? = [] ∧ styles.filterMap Line.style? = b.styles := by
    constructor <;> simp [styles, List.filterMap_map, Function.comp_def, Line.edge?, Line.style?]
  have hrest : nodesOf [] (edges ++ styles) = [] := by
    refine nodesOf_eq_nil [] fun l hl => ?_
    simp only [edges, styles, List.mem_append, List.mem_map] at hl
    rcases hl with ⟨e, -, rfl⟩ | ⟨s, -, rfl⟩
    · exact Or.inl rfl
    · exact Or.inr rfl
  rw [hread]
  refine ⟨?_, ?_, ?_⟩
  · rw [nodesOf_outlined hlines hnode rfl, hrest, List.append_nil]
  · rw [List.filterMap_append, List.filterMap_append, hnoedge, hedge.1, hcss.1, List.append_nil,
      List.nil_append]
  · rw [List.filterMap_append, List.filterMap_append, hnostyle, hedge.2, hcss.2, List.nil_append,
      List.nil_append]

/-- All lines of the body are lines. -/
theorem oneLine_bodyLines (hcss : ∀ s ∈ b.styles, OneLine s.css) :
    ∀ line ∈ bodyLines b.build, OneLine line := by
  obtain ⟨hnode, hsource, htarget, hlabel, hstyle⟩ := h.legible
  obtain ⟨lines, hlines, -, hbody⟩ := exists_bodyLines h
  have hkeyword : OneLine "style " := by decide
  have hspace : OneLine " " := by decide
  rw [hbody, List.forall_mem_append, List.forall_mem_append, List.forall_mem_map,
    List.forall_mem_map]
  refine ⟨⟨oneLine_outlined hlines hnode, fun e he => (oneLine_indent 1).append ?_⟩,
    fun s hs => ?_⟩
  · exact oneLine_edge (hsource e he) (htarget e he) (hlabel e he)
  · exact ((((oneLine_indent 1).append hkeyword).append (oneLine_of_isId (hstyle s hs))).append
      hspace).append (hcss s hs)

end Body

/-- The text of the graph lists every node once and in the order of the nodes, nested by subgraphs,
and after them the edges and the styles. More fuel than there are nodes makes no difference to the
outline: going through the subgraphs ends by itself. -/
def Listed (b : Builder) : Prop :=
  ∃ lines, b.ids.Nodup ∧ Outlined none 1 b.nodes lines ∧
    (∀ fuel, b.nodes.length < fuel → scope b.build fuel none 1 = lines) ∧
    render b.build = joinLines ("flowchart TD" :: (lines ++
      b.edges.map (fun e => indent 1 ++ edge e) ++
      b.styles.map fun s => indent 1 ++ "style " ++ s.node ++ " " ++ s.css))

/-- The nodes have the same ids, shapes, labels and parents, and the edges and styles are the
same. -/
def SameWritten (b b' : Builder) : Prop :=
  b.nodes.map Node.written = b'.nodes.map Node.written ∧
    b.edges.map Edge.written = b'.edges.map Edge.written ∧ b.styles = b'.styles

/-- The text of a graph that operations have made lists what is in it, and determines it: two such
graphs with one text are the same. -/
theorem render_determines {b : Builder} (hb : Builder.Made Shape.IsPlain b)
    (hcss : ∀ s ∈ b.styles, OneLine s.css) : Listed b ∧
      ∀ b' : Builder, Builder.Made Shape.IsPlain b' → (∀ s ∈ b'.styles, OneLine s.css) →
        render b.build = render b'.build → SameWritten b b' := by
  have hfirst (b : Builder) : "flowchart " ++ b.build.direction = "flowchart TD" := by
    show "flowchart " ++ "TD" = "flowchart TD"
    decide
  refine ⟨?_, fun b' hb' hcss' heq => ?_⟩
  · obtain ⟨lines, hlines, hfuel, hbody⟩ := exists_bodyLines hb
    refine ⟨lines, hb.sound.nodup_ids, hlines, hfuel, ?_⟩
    rw [render, hbody, hfirst]
  · have hhead : OneLine "flowchart TD" := by decide
    rw [render, render, hfirst, hfirst] at heq
    have hlines : "flowchart TD" :: bodyLines b.build = "flowchart TD" :: bodyLines b'.build :=
      joinLines_inj (List.forall_mem_cons.mpr ⟨hhead, oneLine_bodyLines hb hcss⟩)
        (List.forall_mem_cons.mpr ⟨hhead, oneLine_bodyLines hb' hcss'⟩) heq
    obtain ⟨hnodes, hedges, hstyles⟩ := read_bodyLines hb
    obtain ⟨hnodes', hedges', hstyles'⟩ := read_bodyLines hb'
    rw [SameWritten, ← hnodes, ← hedges, ← hstyles, (List.cons.inj hlines).2]
    exact ⟨hnodes', hedges', hstyles'⟩

/-- A subgraph that is never closed, with a decision in it, an edge back to the step before the
subgraph, and a style. The step has a label that looks like the line of an edge. -/
theorem render_determines_openScope :
    let b₁ := ((Builder.empty .strict (some 30)).addNode .process "M1 --> M2" (some 1)).2
    let b₂ := ((b₁.openSubgraph "C" none).2.addNode .decision "d" none).2
    let b := (b₂.addEdge "N3" "L1_1" (some "end")).addStyle "N3" "fill:#fff"
    (Builder.Made Shape.IsPlain b ∧ ∀ s ∈ b.styles, OneLine s.css) ∧ Listed b ∧
      ∀ b' : Builder, Builder.Made Shape.IsPlain b' → (∀ s ∈ b'.styles, OneLine s.css) →
        render b.build = render b'.build → SameWritten b b' := by
  intro b₁ b₂ b
  have h₁ : Builder.Made Shape.IsPlain b₁ :=
    .node _ _ (.empty _ _) ⟨nofun, nofun⟩ IdFamily.proper_line
  have h₂ : Builder.Made Shape.IsPlain b₂ :=
    .node _ _ (.openSubgraph _ _ h₁) ⟨nofun, nofun⟩ IdFamily.proper_line
  have hb : Builder.Made Shape.IsPlain b :=
    .style _ (.edge _ _ h₂ (by decide) (by decide)) (by decide)
  have hcss : ∀ s ∈ b.styles, OneLine s.css := by decide
  exact ⟨⟨hb, hcss⟩, render_determines hb hcss⟩

end Diagram

end Flowchart
