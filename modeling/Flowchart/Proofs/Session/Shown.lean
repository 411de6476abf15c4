import Flowchart.Proofs.Compile
import Flowchart.Proofs.Highlight.Lines
import Flowchart.Proofs.Session.Commits

/-!
# Steps shown in a session

The highlighter of a session keeps a graph of its own. It is told of a new one by commits with a
drawing only, so its graph is that of the last such commit (`shown_of_lastDrawn`). As long as the session
has a drawing, this is the graph of the session, and steps are shown by its nodes.

A commit without a drawing takes graph and drawing of the session away and tells the highlighter
nothing. Until the next drawing, steps are shown by nodes that the session has no more
(`deletedText_shown`).

`highlighter_rendered` says what the render of the newest request does, `highlighter_next` that no other
event gives the highlighter another graph, and `holds_after` what they come to in a run.

## Which drawings are read

A highlighter is told of a drawing only if the text of the render can be read as one. So the statements
about runs ask this of every drawing that a render gives (`Event.Readable`). With that, the highlighter
follows the ledger of commits: an entry with a drawing gives it the graph of that entry, and an entry
without one is passed over.

## Main results

* `highlighter_next`: which events give the highlighter another graph.
* `holds_after`: whose graph it has after a run.
* `shown_of_lastDrawn`: steps are shown by the graph of the last commit with a drawing.
* `deletedText_shown`: that graph may be one that the session has no more.
-/

namespace Flowchart

/-! ### What a highlighter keeps -/

namespace Highlighter

/-- The highlighters have drawings of one graph, or none yet. -/
structure SameGraph (h h' : Highlighter) : Prop where
  isReady_eq : h'.isReady = h.isReady
  graph_eq : h'.graph = h.graph

variable (h : Highlighter)

/-- A highlighter has the graph it has. -/
theorem SameGraph.refl : SameGraph h h := ⟨rfl, rfl⟩

/-- Showing the current step leaves the graph. -/
theorem sameGraph_apply : SameGraph h h.apply := by
  obtain ⟨highlighted, drawing, targets, heq⟩ := sameView_apply h
  rw [heq]
  exact ⟨rfl, rfl⟩

/-- Showing a step leaves the graph. -/
theorem sameGraph_showStep (line : Int) (bindings : List Binding) :
    SameGraph h (h.showStep line bindings) := by
  have happly := sameGraph_apply { h with current := some line, bindings := bindings }
  simp only [showStep]
  split_ifs
  · obtain ⟨⟨hgraph, -, -, hready, -⟩, -⟩ := samePicture_scroll
      ({ h with current := some line, bindings := bindings } : Highlighter).apply
    exact ⟨hready.trans happly.isReady_eq, hgraph.trans happly.graph_eq⟩
  · exact ⟨happly.isReady_eq, happly.graph_eq⟩
  · exact ⟨rfl, rfl⟩

/-- A new drawing brings its graph. -/
theorem graph_graphReady (drawing : Element) (graph : Graph) :
    (h.graphReady drawing graph).isReady = true ∧ (h.graphReady drawing graph).graph = graph := by
  simp only [graphReady]
  split_ifs
  · exact ⟨(sameGraph_apply _).isReady_eq, (sameGraph_apply _).graph_eq⟩
  · exact ⟨rfl, rfl⟩

/-- The nodes that are highlighted are nodes of the graph. -/
theorem mem_highlighted_apply {h : Highlighter} {id : String} (hid : id ∈ h.apply.highlighted) :
    ∃ n ∈ h.graph.nodes, n.id = id := by
  obtain ⟨drawing, targets, hclear⟩ := sameView_clear h
  rw [apply] at hid
  dsimp only at hid
  split at hid
  · rw [hclear] at hid
    exact absurd hid List.not_mem_nil
  · obtain ⟨n, hn, hnid⟩ := List.mem_map.mp (List.mem_filter.mp hid).1
    rw [hclear] at hn
    exact ⟨n, (List.mem_filter.mp hn).1, hnid⟩

/-- A step is shown by nodes of the graph, and by none before there is a drawing. -/
theorem mem_shown_showStep {h : Highlighter} {line : Int} {bindings : List Binding} {id : String}
    (hid : id ∈ (h.showStep line bindings).shown) :
    h.isReady = true ∧ ∃ n ∈ h.graph.nodes, n.id = id := by
  obtain ⟨hready, -⟩ := sameGraph_showStep h line bindings
  rw [shown, hready] at hid
  split_ifs at hid with hisReady
  · let told : Highlighter := { h with current := some line, bindings := bindings }
    refine ⟨hisReady, mem_highlighted_apply (h := told) ?_⟩
    rw [showStep] at hid
    simp only [if_pos hisReady] at hid
    split_ifs at hid
    · exact (samePicture_scroll _).1.highlighted_eq ▸ hid
    · exact hid
  · exact absurd hid List.not_mem_nil

end Highlighter

namespace Session

open Highlighter

variable (tools : Tools) {m : Moment} {h : Highlighter}

/-! ### What an event does to the highlighter -/

/-- The highlighter is told of a drawing that can be read. -/
theorem highlighter_notify {s : Session} {text : String} {drawing : Element} (graph : Graph)
    (loaded : Grammars) (hh : s.highlighter = some h) (htext : text.isEmpty = false)
    (hdrawing : tools.parseSvg text = some drawing) :
    ((s.notify tools (some text) graph).run loaded).value.1.highlighter =
      some (h.graphReady drawing graph) := by
  simp only [notify, hh, htext, hdrawing]
  rfl

/-- It is told of the drawing of the newest request. -/
theorem highlighter_rendered {graph : Graph} {diagram text : String} {drawing : Element}
    (hh : m.session.highlighter = some h)
    (hrendering : m.session.phase? m.session.generation = some (.rendering graph diagram))
    (htext : text.isEmpty = false) (hdrawing : tools.parseSvg text = some drawing) :
    (m.next tools (.rendered m.session.generation (.svg text))).session.highlighter =
      some (h.graphReady drawing graph) := by
  obtain ⟨⟨gen, code, phase, due⟩, hreq, rfl⟩ := Option.map_eq_some_iff.mp hrendering
  have hfresh : isStale { m.session with renders := m.session.renders + 1 } m.session.generation =
      false := bne_self_eq_false _
  simp only [Moment.next, happen, rendered, hreq, hfresh]
  exact highlighter_notify tools graph m.grammars hh htext hdrawing

/-- It is told nothing if there is no drawing. -/
theorem highlighter_commit_none (s : Session) (g : Nat) (graph : Graph) (diagram : String)
    (loaded : Grammars) :
    ((s.commit tools g graph diagram none).run loaded).value.1.highlighter = s.highlighter := by
  obtain ⟨language, highlighter, generation⟩ := s
  cases highlighter <;> rfl

/-- Compiling tells the highlighter nothing. -/
theorem highlighter_debounced (g : Nat) :
    (m.next tools (.debounced g)).session.highlighter = m.session.highlighter := by
  simp only [Moment.next, happen, debounced]
  split
  · split_ifs <;> rfl
  · rfl

/-- A request that is taken at its turn needs no render, so there is nothing to tell. -/
theorem highlighter_served (g due : Nat) :
    (m.next tools (.served g due)).session.highlighter = m.session.highlighter := by
  simp only [Moment.next, happen, served]
  split
  · split_ifs
    · rfl
    · rfl
    · rfl
    · exact highlighter_commit_none tools _ _ _ _ _
  · rfl

/-- A render that failed, or of a request that is not the newest, is not told. -/
theorem highlighter_rendered_of_other (g : Nat) (result : Rendered)
    (hother : ∀ text graph diagram, result = .svg text → g = m.session.generation →
      m.session.phase? m.session.generation ≠ some (.rendering graph diagram)) :
    (m.next tools (.rendered g result)).session.highlighter = m.session.highlighter := by
  simp only [Moment.next, happen, rendered]
  split
  next code graph diagram due hreq =>
    cases result with
    | failed kind message =>
        simp only
        split_ifs <;> rfl
    | svg text =>
        have hstale : isStale { m.session with renders := m.session.renders + 1 } g = true := by
          by_contra hfresh
          obtain rfl : g = m.session.generation := by simpa [isStale] using hfresh
          exact hother text graph diagram rfl rfl (phase?_of_request? hreq)
        simp only [hstale, if_true]
        rfl
  next => rfl

/-- No request but the newest, when it has been rendered, gives the highlighter another graph. -/
theorem highlighter_next (hh : m.session.highlighter = some h) {e : Event}
    (hother : ∀ graph diagram text, e = .rendered m.session.generation (.svg text) →
      m.session.phase? m.session.generation ≠ some (.rendering graph diagram)) :
    ∃ h', (m.next tools e).session.highlighter = some h' ∧ SameGraph h h' := by
  have hsame : ∀ s : Session, s.highlighter = m.session.highlighter →
      ∃ h', s.highlighter = some h' ∧ SameGraph h h' := fun s hs => ⟨h, hs.trans hh, SameGraph.refl h⟩
  cases e with
  | edited | cancelledEnded | languageSet => exact hsame _ rfl
  | debounced g => exact hsame _ (highlighter_debounced tools g)
  | served g due => exact hsame _ (highlighter_served tools g due)
  | rendered g result =>
      refine hsame _ (highlighter_rendered_of_other tools g result ?_)
      rintro text graph diagram rfl rfl
      exact hother graph diagram text rfl
  | stepShown steps index =>
      simp only [Moment.next, happen, showStep]
      split
      next h' step hh' _ =>
        obtain rfl := Option.some.inj (hh.symm.trans hh')
        exact ⟨_, rfl, sameGraph_showStep h _ _⟩
      next => exact hsame _ rfl

/-- A step of a trace is shown by nodes of the highlighter's graph. -/
theorem mem_showStep {s : Session} (hh : s.highlighter = some h) {steps : List Step} {index : Int}
    {id : String} (hid : id ∈ (s.showStep steps index).1) :
    h.isReady = true ∧ ∃ n ∈ h.graph.nodes, n.id = id := by
  rw [showStep] at hid
  split at hid
  next h' step hh' _ =>
    obtain rfl := Option.some.inj (hh.symm.trans hh')
    exact mem_shown_showStep hid
  next => exact absurd hid List.not_mem_nil

/-! ### What a run does to it -/

/-- What the last commit with a drawing showed. -/
def lastDrawn? (cs : List Commit) : Option Picture :=
  (cs.reverse.map (·.picture)).find? (·.svg.isSome)

/-- The last commit with a drawing is among the later ones, if one of these has a drawing. -/
theorem lastDrawn?_append (cs ds : List Commit) :
    lastDrawn? (cs ++ ds) = (lastDrawn? ds).or (lastDrawn? cs) := by
  rw [lastDrawn?, List.reverse_append, List.map_append, List.find?_append]
  rfl

/-- The highlighter has a drawing of the graph of a picture, or none yet. -/
structure Holds (h : Highlighter) (last : Option Picture) : Prop where
  isReady_eq : h.isReady = last.isSome
  graph_eq : ∀ p ∈ last, h.graph = p.graph

/-- The drawing of a render can be read. -/
def Event.Readable : Event → Prop
  | .rendered _ (.svg text) => text ≠ "" ∧ (tools.parseSvg text).isSome
  | _ => True

/-- When it has been rendered, the newest request is committed with its drawing. -/
theorem Turn.moved_of_rendered {tools : Tools} {s' : Session} {graph : Graph}
    {diagram text : String}
    (ht : Turn tools m (.rendered m.session.generation (.svg text)) s')
    (hrendering : m.session.phase? m.session.generation = some (.rendering graph diagram)) :
    Moved m.session s' m.session.generation (.done (.diagram diagram)) ∧
      s'.picture = ⟨graph, diagram, some text⟩ := by
  cases ht with
  | idle _ _ _ hunfit => exact absurd ⟨graph, diagram, hrendering⟩ hunfit
  | outdated he _ _ hstale _ _ _ => exact absurd (Option.some.inj he).symm hstale
  | drawn hrendering' hmoved hpicture _ _ =>
      obtain ⟨rfl, rfl⟩ := Phase.rendering.inj (Option.some.inj (hrendering.symm.trans hrendering'))
      exact ⟨hmoved, hpicture⟩

/-- No other commit has a drawing. -/
theorem Writes.lastDrawn?_eq_none {s s' : Session} {e : Event} (hwrites : Writes s e s')
    (hother : ¬∃ graph diagram text, e = .rendered s.generation (.svg text) ∧
      s.phase? s.generation = some (.rendering graph diagram)) :
    lastDrawn? ((newlyCommitted s s').map (⟨·, s'.picture⟩)) = none := by
  cases hwrites with
  | nothing hnew _ _ | failure _ _ _ hnew _ _ =>
      rw [hnew]
      rfl
  | unrendered due _ hnew hpicture _ =>
      rw [hnew, hpicture]
      rfl
  | rendered hrendering _ _ _ => exact absurd ⟨_, _, _, rfl, hrendering⟩ hother

/-- An event leaves the highlighter with the drawing of the last commit that has one. -/
theorem holds_next (horderly : m.session.Orderly) (hh : m.session.highlighter = some h)
    {cs : List Commit} (hholds : Holds h (lastDrawn? cs)) {e : Event} (hreadable : e.Readable tools) :
    let s' := (m.next tools e).session
    ∃ h', s'.highlighter = some h' ∧
      Holds h' (lastDrawn? (cs ++ (newlyCommitted m.session s').map (⟨·, s'.picture⟩))) := by
  intro s'
  have hturn : Turn tools m e s' := turn_next tools m e
  by_cases hdrawn : ∃ graph diagram text, e = .rendered m.session.generation (.svg text) ∧
      m.session.phase? m.session.generation = some (.rendering graph diagram)
  · obtain ⟨graph, diagram, text, rfl, hrendering⟩ := hdrawn
    obtain ⟨hmoved, hpicture⟩ := hturn.moved_of_rendered hrendering
    obtain ⟨drawing, hdrawing⟩ := Option.isSome_iff_exists.mp hreadable.2
    have htext : text.isEmpty = false := by simpa [String.isEmpty_iff] using hreadable.1
    obtain ⟨hready, hgraph⟩ := graph_graphReady h drawing graph
    refine ⟨_, highlighter_rendered tools hh hrendering htext hdrawing, ?_⟩
    rw [newlyCommitted_of_moved horderly hrendering rfl hmoved, lastDrawn?_append, hpicture]
    exact ⟨hready, fun p hp => hgraph.trans (congrArg Picture.graph (Option.some.inj hp))⟩
  · obtain ⟨h', hh', hready, hgraph⟩ := highlighter_next tools hh (e := e)
      fun graph diagram text he hrendering => hdrawn ⟨graph, diagram, text, he, hrendering⟩
    refine ⟨h', hh', ?_⟩
    rw [lastDrawn?_append, (hturn.writes horderly).lastDrawn?_eq_none hdrawn, Option.none_or]
    exact ⟨hready.trans hholds.isReady_eq, fun p hp => hgraph.trans (hholds.graph_eq p hp)⟩

/-- At every moment of a run, the highlighter has the drawing of the last commit that has one. -/
theorem holds_after (horderly : m.session.Orderly) (hh : m.session.highlighter = some h)
    (hnew : h.isReady = false) (events : List Event) (hreadable : ∀ e ∈ events, e.Readable tools) :
    ∃ h', (m.after tools events).session.highlighter = some h' ∧
      Holds h' (lastDrawn? (commits tools m events)) := by
  induction events using List.reverseRecOn with
  | nil => exact ⟨h, hh, hnew, nofun⟩
  | append_singleton past e ih =>
      obtain ⟨h', hh', hholds⟩ := ih fun e' he' => hreadable e' (List.mem_append_left _ he')
      rw [Moment.after_snoc, commits_snoc]
      exact holds_next tools (orderly_after tools horderly past) hh' hholds
        (hreadable e (List.mem_append_right _ (List.mem_singleton_self e)))

/-- While the session has a drawing, it shows what the last commit with a drawing showed. -/
theorem lastDrawn?_of_svg {start : Moment} (horderly : start.session.Orderly)
    (hpicture : start.session.picture = {}) (events : List Event)
    (hsvg : (start.after tools events).session.svg.isSome) :
    lastDrawn? (commits tools start events) = some (start.after tools events).session.picture := by
  obtain ⟨-, -, hlast⟩ := ledger_after tools horderly hpicture events
  have hsvg' : (start.after tools events).session.picture.svg.isSome := hsvg
  rw [hlast] at hsvg' ⊢
  rw [lastDrawn?]
  generalize commits tools start events = cs at hsvg' ⊢
  rcases cs.eq_nil_or_concat' with rfl | ⟨cs, c, rfl⟩
  · exact absurd hsvg' Bool.noConfusion
  · rw [List.getLast?_concat] at hsvg' ⊢
    rw [List.reverse_concat, List.map_cons]
    exact List.find?_cons_of_pos hsvg'

/-- What shows the steps of a trace in a session that began with a new highlighter, after any events
whose drawings can be read. The highlighter has the graph of the last commit that has a drawing, if there
was one, and steps are shown by nodes of this graph only. While the session has a drawing, this is the
graph of the session. -/
theorem shown_of_lastDrawn (language : Option String) (h₀ : Highlighter) (grammars : Grammars)
    (events : List Event) (hnew : h₀.isReady = false)
    (hreadable : ∀ e ∈ events, e.Readable tools) :
    let start := Moment.opened language (some h₀) grammars
    let s := (start.after tools events).session
    let last := lastDrawn? (commits tools start events)
    (∃ h, s.highlighter = some h ∧ Holds h last) ∧
      (s.svg.isSome → last = some s.picture) ∧
      ∀ steps index, ∀ id ∈ (s.showStep steps index).1,
        ∃ p ∈ last, ∃ n ∈ p.graph.nodes, n.id = id := by
  intro start s last
  have horderly := orderly_opened language (some h₀) grammars
  obtain ⟨h, hh, hholds⟩ := holds_after tools (m := start) horderly rfl hnew events hreadable
  refine ⟨⟨h, hh, hholds⟩, lastDrawn?_of_svg tools horderly rfl events, fun steps index id hid => ?_⟩
  obtain ⟨hready, n, hn, hnid⟩ := mem_showStep hh hid
  obtain ⟨p, hp⟩ := Option.isSome_iff_exists.mp (hholds.isReady_eq.symm.trans hready)
  exact ⟨p, hp, n, hholds.graph_eq p hp ▸ hn, hnid⟩

/-! ### A text that is deleted -/

/-- Tools that draw the two statements. -/
def drawingTools : Tools where
  parsers := twoStatements
  hasRenderer := true
  parseSvg _ := some twoNodesDrawn

/-- Two statements are drawn; then their text is deleted. -/
def deletedText : List Event :=
  [.edited (some "x = y\nprint(x)") 1, .debounced 1, .served 1 2, .rendered 1 (.svg "<svg/>"),
    .edited (some "") 3, .debounced 2, .served 2 4]

/-- All drawings that are rendered in this run can be read. -/
theorem readable_deletedText : ∀ e ∈ deletedText, e.Readable drawingTools := by
  simp [deletedText, Event.Readable, drawingTools]

/-- The first request of a session queues for the renderer when it has waited. -/
theorem after_first_debounced (language : Option String) (highlighter : Option Highlighter)
    (grammars : Grammars) (code : Option String) (due : Nat) :
    (Moment.opened language highlighter grammars).after tools [.edited code due, .debounced 1] =
      let r := ((compile tools.parsers {} code language).run grammars).value
      ⟨{ language := language, highlighter := highlighter, generation := 1
         requests := [⟨1, code, .queued r.1.1 r.1.2, due⟩] }, r.2⟩ := rfl

/-- Two statements are compiled to their graph and its diagram. -/
theorem compile_twoStatements :
    ((compile twoStatements {} (some "x = y\nprint(x)") (some "python")).run {}).value =
      ((twoNodes, Diagram.assemble {} twoNodes), {}) := by
  have hlowered : ((lower twoStatements {} (some "x = y\nprint(x)") (some "python")).run {}).value =
      (twoNodes, {}) := by
    have hloaded : ((lower twoStatements {} (some "x = y\nprint(x)") (some "python")).run
        {}).value.2.loaded = [] := by decide +kernel
    have hunsupported : ((lower twoStatements {} (some "x = y\nprint(x)") (some "python")).run
        {}).value.2.unsupported = [] := by decide +kernel
    generalize hvalue : ((lower twoStatements {} (some "x = y\nprint(x)") (some "python")).run
      {}).value = value at hloaded hunsupported
    obtain ⟨graph, loaded, unsupported⟩ := value
    obtain rfl : graph = twoNodes := lower_twoStatements ▸ congrArg Prod.fst hvalue.symm
    obtain rfl : loaded = [] := hloaded
    obtain rfl : unsupported = [] := hunsupported
    rfl
  have hshown : Diagram.isDegenerate {} twoNodes = false := by decide +kernel
  refine (congrArg Logged.value
    (run_compile twoStatements {} (by decide +kernel) (by decide +kernel) {})).trans ?_
  simp only [hlowered, shownText, hshown, Bool.false_eq_true, if_false]

/-- The session has no graph in the end, and yet shows a step by a node. -/
theorem ends_deletedText :
    let s := ((Moment.opened (some "python") (some {}) {}).after drawingTools deletedText).session
    s.graph = {} ∧ s.svg = none ∧ (s.showStep [⟨1, 1, [], "", ""⟩] 0).1 = ["L1_1"] := by
  have hevents : deletedText =
      [.edited (some "x = y\nprint(x)") 1, .debounced 1] ++ deletedText.drop 2 := rfl
  have hqueued := after_first_debounced drawingTools (some "python") (some {}) {}
    (some "x = y\nprint(x)") 1
  rw [hevents, Moment.after_append, hqueued, show drawingTools.parsers = twoStatements from rfl,
    compile_twoStatements]
  decide +kernel

/-- After the text was deleted a step is shown by the nodes that it had. -/
theorem shown_of_lastDrawn_deletedText :
    let start := Moment.opened (some "python") (some {}) {}
    let s := (start.after drawingTools deletedText).session
    ({} : Highlighter).isReady = false ∧ (∀ e ∈ deletedText, e.Readable drawingTools) ∧
      "L1_1" ∈ (s.showStep [⟨1, 1, [], "", ""⟩] 0).1 ∧
      ∃ p ∈ lastDrawn? (commits drawingTools start deletedText),
        ∃ n ∈ p.graph.nodes, n.id = "L1_1" := by
  intro start s
  obtain ⟨-, -, hshown⟩ := ends_deletedText
  have hmem : "L1_1" ∈ (s.showStep [⟨1, 1, [], "", ""⟩] 0).1 := hshown ▸ List.mem_singleton_self _
  exact ⟨rfl, readable_deletedText, hmem, (shown_of_lastDrawn drawingTools (some "python") {} {}
    deletedText rfl readable_deletedText).2.2 _ _ _ hmem⟩

/-- The node is no node of the session's graph, and the highlighter is ready for another graph. -/
theorem deletedText_shown :
    let s := ((Moment.opened (some "python") (some {}) {}).after drawingTools deletedText).session
    (∀ e ∈ deletedText, e.Readable drawingTools) ∧
      (¬ ∀ steps index, ∀ id ∈ (s.showStep steps index).1, ∃ n ∈ s.graph.nodes, n.id = id) ∧
      ¬ ∀ h, s.highlighter = some h → h.isReady = true → h.graph = s.graph := by
  intro s
  obtain ⟨hgraph, -, hshown⟩ := ends_deletedText
  have hmem : "L1_1" ∈ (s.showStep [⟨1, 1, [], "", ""⟩] 0).1 := hshown ▸ List.mem_singleton_self _
  have hother : ¬ ∃ n ∈ s.graph.nodes, n.id = "L1_1" := by
    rw [show s.graph = {} from hgraph]
    simp
  refine ⟨readable_deletedText, fun hnodes => hother (hnodes _ _ _ hmem), fun hsame => ?_⟩
  obtain ⟨h, hh, -⟩ := holds_after drawingTools (orderly_opened (some "python") (some {}) {}) rfl rfl
    deletedText readable_deletedText
  obtain ⟨hready, hnode⟩ := mem_showStep hh hmem
  exact hother (hsame h hh hready ▸ hnode)

end Session

end Flowchart
