import Flowchart.Proofs.Highlight.History

/-!
# Scrolling

What a highlighter scrolls to over a history of drawings and other events (`scrolls_handle`). A new
drawing arms a centering: the first time after it that the width changes while a step is current that
has a node in the drawing, the highlighter scrolls to the first of these nodes. From then on, until the
next drawing, it scrolls whenever a step with a node is shown, and at nothing else.

Whether a drawing has been centered is read off the history alone (`hasCentered`), and so is the step
that is current (`lineAfter`). Elements keep the ids they have in the drawing (`elementIds`), whatever
was done to their styles and labels since.

## What an event does

`Handles` collects what is to be known of one event: the ids of the elements stay, the line that is
current and whether the drawing was centered are those that the history tells, and the nodes that are
scrolled to are those that the event asks for. There is a lemma for each kind of event, and
`Lists.after` carries the state over a list of them. A new drawing starts all of this anew
(`lists_graphReady`), so of a history only the events since the last drawing count.

## Main results

* `Lists.handles`: what a highlighter scrolls to at one event.
* `Lists.after`: that it lists the nodes of the drawing is kept by every event.
* `scrolls_handle`: what it scrolls to at the next event, in terms of the history.
* `Lists.length_scrolledAt_le`: between two drawings it scrolls at most once because of a width.
-/

namespace Flowchart

open Element

/-- The id of the element that a node stands at. -/
def idIn (g : Graph) (d : Element) (node : String) : Option String :=
  (d.descendants.find? fun place => standsFor g node place.2).bind fun place => place.2.attr? "id"

namespace Highlighter

/-- The nodes of the current step that stand in the drawing; none without a step. -/
def nodesAt (g : Graph) (d : Element) (line : Option Int) : List String :=
  line.elim [] (nodesShown g d)

/-! ### Ids of elements -/

/-- The listed nodes with the ids of their elements. -/
def elementIds (h : Highlighter) : List (String × String) :=
  h.targets.map fun t => (t.node, t.elementId)

/-- Changing an element changes no id that is pointed to. -/
theorem elementIds_modify (h : Highlighter) (path : Option Path) (f : Element → Element) :
    (h.modify path f).elementIds = h.elementIds := by
  cases path with
  | none | some _ => rfl

/-- Targets that keep their nodes and ids keep the list of ids. -/
theorem elementIds_map {f : Target → Target}
    (hf : ∀ t, (f t).node = t.node ∧ (f t).elementId = t.elementId) (h : Highlighter) :
    elementIds { h with targets := h.targets.map f } = h.elementIds := by
  rw [elementIds, List.map_map]
  exact List.map_congr_left fun t _ => Prod.ext (hf t).1 (hf t).2

/-- New text in a label changes no id. -/
theorem elementIds_relabel (h : Highlighter) (path : Path) (f : Element → Element) :
    (h.relabel path f).elementIds = h.elementIds :=
  (elementIds_map (f := Target.cutBelow path) (fun _ => ⟨rfl, rfl⟩) _).trans
    (elementIds_modify h (some path) f)

/-- Keeping a label as a snapshot changes no id. -/
theorem elementIds_keepLabel (h : Highlighter) (node : String) (label : Element) :
    (h.keepLabel node label).elementIds = h.elementIds :=
  elementIds_map (fun t => by split_ifs <;> exact ⟨rfl, rfl⟩) h

/-- Restoring a label changes no id. -/
theorem elementIds_restoreLabel (h : Highlighter) (node : String) :
    (h.restoreLabel node).elementIds = h.elementIds := by
  rw [restoreLabel]
  split
  · rfl
  · split
    · split
      · split_ifs
        · exact elementIds_relabel h _ _
        · rfl
      · rfl
    · rfl

/-- Clearing a node changes no id. -/
theorem elementIds_clearNode (h : Highlighter) (node : String) :
    (h.clearNode node).elementIds = h.elementIds := by
  rw [clearNode]
  split
  · rfl
  · rw [elementIds_restoreLabel, elementIds_modify]

/-- Showing values in a label changes no id. -/
theorem elementIds_injectLabel (h : Highlighter) (node : String) :
    (h.injectLabel node).elementIds = h.elementIds := by
  rw [injectLabel]
  split
  · rfl
  · split
    · rfl
    · rw [elementIds_relabel, elementIds_keepLabel]

/-- Highlighting a node changes no id. -/
theorem elementIds_showNode (h : Highlighter) (node : String) :
    (h.showNode node).elementIds = h.elementIds := by
  rw [showNode]
  split
  · rfl
  · dsimp only
    split_ifs
    · exact elementIds_modify h _ _
    · rw [elementIds_injectLabel, elementIds_modify]

/-- What changes no id at one node changes none at many. -/
theorem elementIds_foldl {f : Highlighter → String → Highlighter}
    (hf : ∀ h node, (f h node).elementIds = h.elementIds) (nodes : List String) (h : Highlighter) :
    (nodes.foldl f h).elementIds = h.elementIds := by
  induction nodes generalizing h with
  | nil => rfl
  | cons node nodes ih => exact (ih (f h node)).trans (hf h node)

/-- Clearing changes no id. -/
theorem elementIds_clear (h : Highlighter) : h.clear.elementIds = h.elementIds :=
  elementIds_foldl elementIds_clearNode (h.targets.map Target.node) h

/-- Showing the current step changes no id. -/
theorem elementIds_apply (h : Highlighter) : h.apply.elementIds = h.elementIds := by
  rw [apply]
  dsimp only
  split
  · exact elementIds_clear h
  next line _ =>
    exact (elementIds_foldl elementIds_showNode (h.clear.nodesOn line) h.clear).trans
      (elementIds_clear h)

/-- The id of a node's element is found among the ids alone. -/
theorem map_elementId_target? (h : Highlighter) (node : String) :
    (h.target? node).map (·.elementId) = (h.elementIds.find? (·.1 == node)).map (·.2) := by
  rw [elementIds, List.find?_map, Option.map_map, target?]
  rfl

/-! ### A drawing that is listed -/

/-- The highlighter shows the graph in the drawing, or what became of it: it finds the same nodes under
the same ids. -/
structure Lists (g : Graph) (d : Element) (h : Highlighter) : Prop where
  isReady_eq : h.isReady = true
  graph_eq : h.graph = g
  elementIds_eq : h.elementIds = (targetsIn g d).map fun t => (t.node, t.elementId)

section Lists

variable {g : Graph} {d : Element} {h : Highlighter}

/-- What a highlighter lists depends on its graph and its ids alone. -/
theorem Lists.of_eq (hl : Lists g d h) {h' : Highlighter} (hready : h'.isReady = h.isReady)
    (hgraph : h'.graph = h.graph) (hids : h'.elementIds = h.elementIds) : Lists g d h' :=
  ⟨hready.trans hl.isReady_eq, hgraph.trans hl.graph_eq, hids.trans hl.elementIds_eq⟩

/-- The id of a node's element is the one in the drawing. -/
theorem Lists.elementId_eq (hl : Lists g d h) (node : String) :
    (h.target? node).map (·.elementId) = idIn g d node := by
  have hfound : (h.target? node).map (·.elementId) =
      ((targetsIn g d).find? (·.node == node)).map (·.elementId) := by
    rw [map_elementId_target?, hl.elementIds_eq, List.find?_map, Option.map_map]
    rfl
  rw [hfound, find?_targetsIn, idIn]
  cases hfirst : d.descendants.find? fun place => standsFor g node place.2 with
  | none => rfl
  | some place =>
      -- an element that stands for a node has an id
      have hstands := List.find?_some hfirst
      cases hid : place.2.attr? "id" with
      | none => simp [standsFor, nodeOf?, hid] at hstands
      | some id => simp [Target.first, hid]

/-- The nodes on a line are those of the graph that the drawing shows. -/
theorem Lists.nodesOn_eq (hl : Lists g d h) (line : Int) : h.nodesOn line = nodesShown g d line := by
  rw [nodesOn, nodesShown, hl.graph_eq]
  refine List.filter_congr fun node _ => ?_
  have hfound : (h.target? node).isSome = ((h.target? node).map (·.elementId)).isSome :=
    Option.isSome_map.symm
  rw [hfound, map_elementId_target?, hl.elementIds_eq, List.find?_map, Option.isSome_map,
    Option.isSome_map]
  rfl

/-- A node that the drawing shows has an id there. -/
theorem Lists.idIn_isSome (hl : Lists g d h) {line : Int} {node : String}
    (hnode : node ∈ nodesShown g d line) : (idIn g d node).isSome = true := by
  rw [← hl.nodesOn_eq] at hnode
  rw [← hl.elementId_eq, Option.isSome_map]
  exact (List.mem_filter.mp hnode).2

/-- Showing the current step highlights its nodes and scrolls nowhere. -/
theorem Lists.apply (hl : Lists g d h) :
    Lists g d h.apply ∧ h.apply.highlighted = nodesAt g d h.current ∧
      h.apply.current = h.current ∧ h.apply.isCentered = h.isCentered ∧
      h.apply.scrolls = h.scrolls := by
  obtain ⟨drawing, targets, hclear⟩ := sameView_clear h
  obtain ⟨highlighted, drawing', targets', heq⟩ := sameView_apply h
  have hlists : Lists g d h.apply :=
    hl.of_eq (by rw [heq]) (by rw [heq]) (elementIds_apply h)
  have hcleared : Lists g d h.clear :=
    hl.of_eq (by rw [hclear]) (by rw [hclear]) (elementIds_clear h)
  refine ⟨hlists, ?_, by rw [heq], by rw [heq], by rw [heq]⟩
  have hcurrent : h.clear.current = h.current := by rw [hclear]
  rw [Highlighter.apply]
  simp only [hcurrent, hcleared.nodesOn_eq, nodesAt]
  cases h.current with
  | none => exact congrArg Highlighter.highlighted hclear
  | some line => rfl

end Lists

/-! ### What an event scrolls to -/

/-- The line of the current step after an event. -/
def Event.line (current : Option Int) : Event → Option Int
  | .stepShown line _ => some line
  | .resized _ _ | .themeSet _ | .cleared => current

/-- Whether an event is a change of a width. -/
def Event.isResized : Event → Bool
  | .resized _ _ => true
  | .stepShown _ _ | .themeSet _ | .cleared => false

/-- Whether an event is one to center the drawing at: the width changes, and the current step has a
node. -/
def Event.centers (g : Graph) (d : Element) (current : Option Int) (e : Event) : Bool :=
  e.isResized && !(nodesAt g d current).isEmpty

/-- Whether one of the events was one to center the drawing at. -/
def hasCentered (g : Graph) (d : Element) : Option Int → List Event → Bool
  | _, [] => false
  | current, e :: events => e.centers g d current || hasCentered g d (e.line current) events

/-- Whether an event scrolls if it highlights a node, by what is current and whether the drawing was
centered before: a new width does until the drawing is centered, a step from then on. -/
def Event.moves (current : Option Int) (centered : Bool) : Event → Bool
  | .resized _ _ => current.isSome && !centered
  | .stepShown _ _ => centered
  | .themeSet _ | .cleared => false

/-- There was one more scroll, to the element of the first of the nodes; none if there are no nodes. -/
def ScrollsTo (g : Graph) (d : Element) (nodes : List String) (h h' : Highlighter) : Prop :=
  ∃ ids, h'.scrolls = h.scrolls ++ ids ∧ ids.map some = (nodes.take 1).map (idIn g d)

section Lists

variable {g : Graph} {d : Element} {h : Highlighter}

/-- A highlighter that scrolls to nothing new. -/
theorem scrollsTo_nil {h' : Highlighter} (heq : h'.scrolls = h.scrolls) : ScrollsTo g d [] h h' :=
  ⟨[], heq.trans (List.append_nil _).symm, rfl⟩

/-- Scrolling goes to the first highlighted node, if there is one. -/
theorem Lists.scroll (hl : Lists g d h) {current : Option Int}
    (hshown : h.highlighted = nodesAt g d current) :
    Lists g d h.scroll ∧ ScrollsTo g d h.highlighted h h.scroll := by
  rw [Highlighter.scroll]
  split
  next hnil =>
    rw [hnil]
    exact ⟨hl, scrollsTo_nil rfl⟩
  next node rest hcons =>
    have hnode : node ∈ nodesAt g d current := by rw [← hshown, hcons]; exact List.mem_cons_self
    cases current with
    | none => exact absurd hnode List.not_mem_nil
    | some line =>
        obtain ⟨id, hid⟩ := Option.isSome_iff_exists.mp (hl.idIn_isSome hnode)
        refine ⟨hl.of_eq rfl rfl rfl, [id], ?_, ?_⟩
        · rw [hl.elementId_eq, hid, Option.getD_some]
        · rw [hcons, List.take_succ_cons, List.take_zero, List.map_singleton, List.map_singleton,
            hid]

/-- Scrolling changes neither the current step nor what is highlighted. -/
theorem scroll_eq (h : Highlighter) : h.scroll.current = h.current ∧
    h.scroll.isCentered = h.isCentered ∧ h.scroll.highlighted = h.highlighted := by
  rw [Highlighter.scroll]
  split
  · exact ⟨rfl, rfl, rfl⟩
  · exact ⟨rfl, rfl, rfl⟩

/-- What is known of a drawing that is shown after an event. -/
structure Handles (g : Graph) (d : Element) (h : Highlighter) (e : Event) : Prop where
  lists : Lists g d (h.handle e)
  current_eq : (h.handle e).current = e.line h.current
  isCentered_eq : (h.handle e).isCentered = (h.isCentered || e.centers g d h.current)
  scrollsTo : ScrollsTo g d
    (if e.moves h.current h.isCentered then (h.handle e).highlighted else []) h (h.handle e)
  highlighted_eq : e.moves h.current h.isCentered = false ∨
    (h.handle e).highlighted = nodesAt g d (e.line h.current)

/-- An event that does not scroll, whatever it highlights. -/
theorem Handles.still {e : Event} (hl : Lists g d (h.handle e))
    (hcurrent : (h.handle e).current = e.line h.current)
    (hcentered : (h.handle e).isCentered = h.isCentered) (hscrolls : (h.handle e).scrolls = h.scrolls)
    (hcenters : (h.isCentered || e.centers g d h.current) = h.isCentered)
    (hmoves : e.moves h.current h.isCentered = false) : Handles g d h e where
  lists := hl
  current_eq := hcurrent
  isCentered_eq := hcentered.trans hcenters.symm
  scrollsTo := by
    rw [hmoves, if_neg Bool.noConfusion]
    exact scrollsTo_nil hscrolls
  highlighted_eq := Or.inl hmoves

/-- A step with a node is scrolled to if the drawing has been centered. -/
theorem Lists.handles_stepShown (hl : Lists g d h) (line : Int) (bindings : List Binding) :
    Handles g d h (.stepShown line bindings) := by
  let told : Highlighter := { h with current := some line, bindings := bindings }
  obtain ⟨hlists, hshown, hcurrent, hcentered, hscrolls⟩ :=
    Lists.apply (h := told) (hl.of_eq rfl rfl rfl)
  have hhandle : h.handle (.stepShown line bindings) =
      if h.isCentered then told.apply.scroll else told.apply := by
    rw [Highlighter.handle, showStep, if_pos hl.isReady_eq]
    exact congrArg (fun c : Bool => if c then told.apply.scroll else told.apply) hcentered
  have hmoves : Event.moves h.current h.isCentered (.stepShown line bindings) = h.isCentered := rfl
  have hcenters : (h.isCentered || Event.centers g d h.current (.stepShown line bindings)) =
      h.isCentered := Bool.or_false _
  cases hcase : h.isCentered with
  | false =>
      rw [hcase, if_neg Bool.noConfusion] at hhandle
      exact .still (hhandle ▸ hlists) (hhandle ▸ hcurrent) (hhandle ▸ hcentered)
        (hhandle ▸ hscrolls) hcenters (hmoves.trans hcase)
  | true =>
      rw [hcase, if_pos rfl] at hhandle
      obtain ⟨hlists', ids, hids, hids'⟩ := hlists.scroll hshown
      obtain ⟨hcurrent', hcentered', hshown'⟩ := scroll_eq told.apply
      refine ⟨hhandle ▸ hlists', ?_, ?_, ?_, Or.inr ?_⟩
      · rw [hhandle, hcurrent']
        exact hcurrent
      · rw [hhandle, hcenters, hcentered']
        exact hcentered
      · rw [hmoves, hcase, if_pos rfl, hhandle, hshown']
        exact ⟨ids, by rw [hids, hscrolls], hids'⟩
      · rw [hhandle, hshown']
        exact hshown

/-- A change of the width centers a drawing once, if a step with a node is current. -/
theorem Lists.handles_resized (hl : Lists g d h) (container chart : Option Number) :
    Handles g d h (.resized container chart) := by
  obtain ⟨told, ⟨zoom, htold⟩, hhandle⟩ := exists_resized_eq h container chart
  have hlisted : Lists g d told := htold ▸ hl.of_eq rfl rfl rfl
  have hstep : told.current = h.current := htold ▸ rfl
  have harmed : told.isCentered = h.isCentered := htold ▸ rfl
  have hfirst : told.scrolls = h.scrolls := htold ▸ rfl
  have hcenters : Event.centers g d h.current (.resized container chart) =
      !(nodesAt g d h.current).isEmpty := Bool.true_and _
  have hmoves : Event.moves h.current h.isCentered (.resized container chart) =
      (h.current.isSome && !h.isCentered) := rfl
  rw [hlisted.isReady_eq, Bool.true_and, Bool.and_comm, harmed, hstep, ← hmoves] at hhandle
  cases hcase : Event.moves h.current h.isCentered (.resized container chart) with
  | false =>
      rw [hcase, if_neg Bool.noConfusion] at hhandle
      refine .still (hhandle ▸ hlisted) (hhandle ▸ hstep) (hhandle ▸ harmed) (hhandle ▸ hfirst) ?_
        hcase
      -- it is centered already, or there is no step
      rw [hcenters]
      rw [hmoves] at hcase
      cases hnone : h.current with
      | none => exact Bool.or_false _
      | some _ =>
          rw [hnone, Option.isSome_some, Bool.true_and, Bool.not_eq_false'] at hcase
          rw [hcase, Bool.true_or]
  | true =>
      obtain ⟨hlists, hshown, hcurrent, hcentered, hscrolls⟩ := hlisted.apply
      rw [hstep] at hshown hcurrent
      have hnot : h.isCentered = false := by
        rw [hmoves, Bool.and_eq_true, Bool.not_eq_true'] at hcase
        exact hcase.2
      rw [hcase, if_pos rfl] at hhandle
      cases hempty : told.apply.highlighted.isEmpty with
      | true =>
          rw [hempty, if_pos rfl] at hhandle
          refine ⟨hhandle ▸ hlists, hhandle ▸ hcurrent, ?_, ?_, Or.inr (hhandle ▸ hshown)⟩
          · rw [hhandle, hcentered, harmed, hcenters, ← hshown, hempty, Bool.not_true,
              Bool.or_false]
          · rw [hcase, if_pos rfl, hhandle, List.isEmpty_iff.mp hempty]
            exact scrollsTo_nil (hscrolls.trans hfirst)
      | false =>
          rw [hempty, if_neg Bool.noConfusion] at hhandle
          obtain ⟨hlists', ids, hids, hids'⟩ := hlists.scroll hshown
          obtain ⟨hcurrent', -, hshown'⟩ := scroll_eq told.apply
          have hfollowed : (h.handle (.resized container chart)).highlighted =
              told.apply.highlighted := by
            rw [hhandle]
            exact hshown'
          refine ⟨?_, ?_, ?_, ?_, Or.inr (hfollowed.trans hshown)⟩
          · rw [hhandle]
            exact hlists'.of_eq rfl rfl rfl
          · rw [hhandle]
            exact hcurrent'.trans hcurrent
          · rw [hhandle, hcenters, ← hshown, hempty, Bool.not_false, Bool.or_true]
          · rw [hcase, if_pos rfl, hfollowed]
            refine ⟨ids, ?_, hids'⟩
            rw [hhandle, ← hfirst, ← hscrolls]
            exact hids

/-- At a change of the theme nothing is scrolled to. -/
theorem Lists.handles_themeSet (hl : Lists g d h) (theme : Theme) :
    Handles g d h (.themeSet theme) := by
  let told : Highlighter := { h with theme := theme }
  obtain ⟨hlists, -, hcurrent, hcentered, hscrolls⟩ :=
    Lists.apply (h := told) (hl.of_eq rfl rfl rfl)
  have hhandle : h.handle (.themeSet theme) =
      if told.isReady && told.current.isSome then told.apply else told := rfl
  split_ifs at hhandle
  · exact .still (hhandle ▸ hlists) (hhandle ▸ hcurrent) (hhandle ▸ hcentered) (hhandle ▸ hscrolls)
      (Bool.or_false _) rfl
  · exact .still (hhandle ▸ hl.of_eq rfl rfl rfl) (hhandle ▸ rfl) (hhandle ▸ rfl) (hhandle ▸ rfl)
      (Bool.or_false _) rfl

/-- When the highlighter is cleared nothing is scrolled to. -/
theorem Lists.handles_cleared (hl : Lists g d h) : Handles g d h .cleared := by
  obtain ⟨drawing, targets, hclear⟩ := sameView_clear h
  have hhandle : h.handle .cleared = h.clear := rfl
  refine .still (hl.of_eq ?_ ?_ (elementIds_clear h)) ?_ ?_ ?_ (Bool.or_false _) rfl
  all_goals
    rw [hhandle, hclear]
    try rfl

/-- So every event is handled as the history asks for. -/
theorem Lists.handles (hl : Lists g d h) (e : Event) : Handles g d h e := by
  cases e with
  | resized container chart => exact hl.handles_resized container chart
  | stepShown line bindings => exact hl.handles_stepShown line bindings
  | themeSet theme => exact hl.handles_themeSet theme
  | cleared => exact hl.handles_cleared

/-- A drawing stays listed, and what is current and centered is known from the history. -/
theorem Lists.after (hl : Lists g d h) (events : List Event) :
    Lists g d (h.after events) ∧ (h.after events).current = events.foldl Event.line h.current ∧
      (h.after events).isCentered = (h.isCentered || hasCentered g d h.current events) := by
  induction events generalizing h with
  | nil => exact ⟨hl, rfl, (Bool.or_false _).symm⟩
  | cons e events ih =>
      have he := hl.handles e
      obtain ⟨hlists, hcurrent, hcentered⟩ := ih he.lists
      rw [he.current_eq] at hcurrent hcentered
      exact ⟨hlists, hcurrent, by
        rw [hasCentered, ← Bool.or_assoc, ← he.isCentered_eq]; exact hcentered⟩

/-- A new drawing is listed, is not centered, and is not scrolled to. -/
theorem lists_graphReady (h : Highlighter) (g : Graph) (d : Element) :
    Lists g d (h.graphReady d g) ∧ (h.graphReady d g).current = h.current ∧
      (h.graphReady d g).isCentered = false ∧ (h.graphReady d g).scrolls = h.scrolls := by
  have hlisted : Lists g d (h.withDrawing d g) := ⟨rfl, rfl, rfl⟩
  obtain ⟨hlists, -, hcurrent, hcentered, hscrolls⟩ := hlisted.apply
  rw [graphReady_eq]
  split_ifs
  · exact ⟨hlists, hcurrent, hcentered, hscrolls⟩
  · exact ⟨hlisted, rfl, rfl, rfl⟩

end Lists

/-! ### Whole histories -/

/-- What a highlighter is told of from the start: drawings, and events before and after them. -/
inductive Notice where
  | drawn (drawing : Element) (graph : Graph)
  | event (e : Event)

/-- What a highlighter does when it is told of something. -/
def receive (h : Highlighter) : Notice → Highlighter
  | .drawn drawing graph => h.graphReady drawing graph
  | .event e => h.handle e

/-- A highlighter after it was told of some things. -/
def afterAll (h : Highlighter) (notices : List Notice) : Highlighter := notices.foldl receive h

/-- The line of the current step after a notice. -/
def Notice.line (current : Option Int) : Notice → Option Int
  | .drawn _ _ => current
  | .event e => e.line current

/-- What is scrolled to at the events of a kind, in turn. -/
def scrolledAt (kind : Event → Bool) (h : Highlighter) : List Event → List String
  | [] => []
  | e :: events =>
    (if kind e then (h.handle e).scrolls.drop h.scrolls.length else []) ++
      scrolledAt kind (h.handle e) events

/-- Without a drawing an event tells of a step at most. -/
theorem handle_of_not_ready {h : Highlighter} (hready : h.isReady = false) (e : Event) :
    (h.handle e).isReady = false ∧ (h.handle e).current = e.line h.current ∧
      (h.handle e).scrolls = h.scrolls := by
  cases e with
  | resized container chart =>
      obtain ⟨told, ⟨zoom, htold⟩, hhandle⟩ := exists_resized_eq h container chart
      have htold' : told.isReady = false := htold ▸ hready
      rw [htold', Bool.false_and, Bool.false_and, if_neg Bool.noConfusion, htold] at hhandle
      rw [hhandle]
      exact ⟨hready, rfl, rfl⟩
  | stepShown line bindings =>
      rw [handle, showStep, if_neg (by rw [hready]; exact Bool.noConfusion)]
      exact ⟨hready, rfl, rfl⟩
  | themeSet theme =>
      have hhandle : h.handle (.themeSet theme) = { h with theme := theme } := by
        rw [handle, setTheme, if_neg (by simp [hready])]
      rw [hhandle]
      exact ⟨hready, rfl, rfl⟩
  | cleared =>
      obtain ⟨drawing, targets, hclear⟩ := sameView_clear h
      rw [handle, hclear]
      exact ⟨hready, rfl, rfl⟩

/-- Without a drawing nothing is scrolled to. -/
theorem scrolls_after_of_not_ready {h : Highlighter} (hready : h.isReady = false)
    (events : List Event) : (h.after events).scrolls = h.scrolls := by
  induction events generalizing h with
  | nil => rfl
  | cons e events ih =>
      obtain ⟨hready', -, hscrolls⟩ := handle_of_not_ready hready e
      exact (ih hready').trans hscrolls

/-- Either there is no drawing yet, or there is one that is listed. -/
theorem current_afterAll (h : Highlighter)
    (hlists : h.isReady = false ∨ ∃ g d, Lists g d h) (notices : List Notice) :
    (h.afterAll notices).current = notices.foldl Notice.line h.current := by
  induction notices generalizing h with
  | nil => rfl
  | cons notice notices ih =>
      obtain ⟨hnext, hcurrent⟩ : (((h.receive notice).isReady = false ∨
          ∃ g d, Lists g d (h.receive notice)) ∧
          (h.receive notice).current = notice.line h.current) := by
        cases notice with
        | drawn drawing graph =>
            obtain ⟨hlisted, hcurrent, -⟩ := lists_graphReady h graph drawing
            exact ⟨Or.inr ⟨graph, drawing, hlisted⟩, hcurrent⟩
        | event e =>
            rcases hlists with hready | ⟨g, d, hl⟩
            · obtain ⟨hready', hcurrent, -⟩ := handle_of_not_ready hready e
              exact ⟨Or.inl hready', hcurrent⟩
            · exact ⟨Or.inr ⟨g, d, (hl.handles e).lists⟩, (hl.handles e).current_eq⟩
      rw [List.foldl_cons, ← hcurrent]
      exact ih (h.receive notice) hnext

/-- There is one scroll at most. -/
theorem ScrollsTo.length_drop_le {g : Graph} {d : Element} {nodes : List String}
    {h h' : Highlighter} (hs : ScrollsTo g d nodes h h') :
    (h'.scrolls.drop h.scrolls.length).length ≤ min 1 nodes.length := by
  obtain ⟨ids, hscrolls, hids⟩ := hs
  have hlength : ids.length = (nodes.take 1).length := by
    simpa only [List.length_map] using congrArg List.length hids
  rw [hscrolls, List.drop_left, hlength, List.length_take]

/-- A change of the width that does not center the drawing scrolls nowhere. -/
theorem Handles.follows_eq_nil {g : Graph} {d : Element} {h : Highlighter} {e : Event}
    (he : Handles g d h e) (hkind : e.isResized = true)
    (hstill : h.isCentered = true ∨ e.centers g d h.current = false) :
    (if e.moves h.current h.isCentered then (h.handle e).highlighted else []) = [] := by
  cases hmoves : e.moves h.current h.isCentered with
  | false => exact if_neg Bool.noConfusion
  | true =>
      have hshown := he.highlighted_eq.resolve_left (by rw [hmoves]; exact Bool.noConfusion)
      cases e with
      | stepShown _ _ | themeSet _ | cleared => exact absurd hkind Bool.noConfusion
      | resized _ _ =>
          rw [Event.moves, Bool.and_eq_true, Bool.not_eq_true'] at hmoves
          have hcenters := hstill.resolve_left (by rw [hmoves.2]; exact Bool.noConfusion)
          rw [Event.centers, hkind, Bool.true_and, Bool.not_eq_false'] at hcenters
          rw [if_pos rfl, hshown]
          exact List.isEmpty_iff.mp hcenters

/-- Changes of the width scroll once in a drawing that was not centered, and never in one that was. -/
theorem Lists.length_scrolledAt_le {g : Graph} {d : Element} {h : Highlighter} (hl : Lists g d h)
    (events : List Event) :
    (scrolledAt Event.isResized h events).length ≤ if h.isCentered then 0 else 1 := by
  induction events generalizing h with
  | nil => exact Nat.zero_le _
  | cons e events ih =>
      have he := hl.handles e
      have hrest := ih he.lists
      have hnow := he.scrollsTo.length_drop_le
      rw [he.isCentered_eq] at hrest
      rw [scrolledAt, List.length_append]
      cases hkind : e.isResized with
      | false =>
          have hcenters : e.centers g d h.current = false := by rw [Event.centers, hkind]; rfl
          rw [hcenters, Bool.or_false] at hrest
          simpa using hrest
      | true =>
          rw [if_pos rfl]
          cases hcentered : h.isCentered with
          | true =>
              rw [he.follows_eq_nil hkind (Or.inl hcentered)] at hnow
              rw [hcentered, Bool.true_or, if_pos rfl] at hrest
              exact Nat.add_le_add hnow hrest
          | false =>
              rw [hcentered, Bool.false_or] at hrest
              rw [if_neg Bool.noConfusion]
              cases hcenters : e.centers g d h.current with
              | true =>
                  rw [hcenters, if_pos rfl] at hrest
                  exact Nat.add_le_add (hnow.trans (Nat.min_le_left _ _)) hrest
              | false =>
                  rw [he.follows_eq_nil hkind (Or.inr hcenters)] at hnow
                  rw [hcenters, if_neg Bool.noConfusion] at hrest
                  exact Nat.add_le_add hnow hrest

end Highlighter

open Highlighter

/-- What is scrolled to. Without a drawing nothing is, and neither is a new drawing. After that, whether
an event scrolls depends on what was current and whether the drawing was centered, and both on the
history alone. A scroll goes to the first of the nodes that the event highlights, and the widths make
for one scroll at most. -/
theorem scrolls_handle (settings : Settings) (theme : Theme) (inputs : List String)
    (before : List Notice) (g : Graph) (d : Element) (events : List Event) (e : Event) :
    let fresh : Highlighter := { settings := settings, theme := theme, inputs := inputs }
    let past := fresh.afterAll before
    let start := past.graphReady d g
    let now := start.after events
    let earlier := before.foldl Notice.line none
    let current := events.foldl Event.line earlier
    let moves := e.moves current (hasCentered g d earlier events)
    (fresh.after events).scrolls = [] ∧ start.scrolls = past.scrolls ∧
      ScrollsTo g d (if moves then (now.handle e).highlighted else []) now (now.handle e) ∧
      (moves = false ∨ (now.handle e).highlighted = nodesAt g d (e.line current)) ∧
      (scrolledAt Event.isResized start events).length ≤ 1 := by
  intro fresh past start now earlier current moves
  obtain ⟨hlisted, hcurrent, hcentered, hscrolls⟩ := lists_graphReady past g d
  have hpast : past.current = earlier := current_afterAll fresh (Or.inl rfl) before
  obtain ⟨hlists, hnow, hnow'⟩ := hlisted.after events
  rw [hcurrent, hpast] at hnow hnow'
  rw [hcentered, Bool.false_or] at hnow'
  have he := hlists.handles e
  have hmoves : e.moves now.current now.isCentered = moves := by rw [hnow, hnow']
  have hbound := hlisted.length_scrolledAt_le events
  rw [hcentered, if_neg Bool.noConfusion] at hbound
  exact ⟨scrolls_after_of_not_ready rfl events, hscrolls, hmoves ▸ he.scrollsTo,
    hmoves ▸ hnow ▸ he.highlighted_eq, hbound⟩

/-- The first width after a step centers the drawing, and then the steps are scrolled to. -/
example :
    let start := ({} : Highlighter).graphReady twoNodesDrawn twoNodes
    let events : List Event := [.stepShown 3 [], .resized none none, .stepShown 1 [],
      .resized none none, .themeSet .dark, .resized none none, .stepShown 2 []]
    (start.after events).scrolls = ["flowchart-L1_1-0", "flowchart-L2_2-1"] := by
  decide +kernel

end Flowchart
