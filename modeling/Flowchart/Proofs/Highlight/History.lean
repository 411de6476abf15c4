import Flowchart.Proofs.Highlight.Display

/-!
# Histories of highlighting

A highlighter that has a drawing is told of events, in any order and any number. What it shows then
depends on little: the colours, the step and the variables that it was told last, and whether the last
event that had an effect was a clearing. It shows what a new highlighter shows that is told just that
(`drawing_after`), so highlighting again and again adds nothing up, and clearing gives the drawing back
as it was first.

`Displays.handle` says what one event does to the looks of the nodes, and `displays_after` what a
history comes to.

## What a history comes to

What a highlighter would show is its `View`: the current step, a theme, inputs and values. Each event
changes the view by itself (`Event.tell`), whatever the drawing is. The looks of the nodes depend on the
view and on one thing more, whether the last event that had an effect was a clearing (`looksAfter`).
That the looks are these is kept by every event, and looks determine a drawing up to what stays on an
element that has been highlighted (`Dressed.bare_eq`).

## Main results

* `Displays.handle`: what one event does to the looks of the nodes.
* `displays_after`: what the looks are after a history.
* `drawing_after`: the drawing is that of a new highlighter that is told the last of it.
-/

namespace Flowchart

namespace Highlighter

/-! ### Events -/

/-- What a highlighter that has a drawing is told of. -/
inductive Event where
  | resized (container chart : Option Number)
  | stepShown (line : Int) (bindings : List Binding)
  | themeSet (theme : Theme)
  | cleared

/-- What a highlighter does at an event. -/
def handle (h : Highlighter) : Event → Highlighter
  | .resized container chart => h.resized container chart
  | .stepShown line bindings => h.showStep line bindings
  | .themeSet theme => h.setTheme theme
  | .cleared => h.clear

/-- A highlighter after some events. -/
def after (h : Highlighter) (events : List Event) : Highlighter := events.foldl handle h

/-- Whether a highlighter that has a drawing draws at an event: without a step there is nothing to draw,
and for a new width it draws until it has scrolled to a step. -/
def Event.isEffective (h : Highlighter) : Event → Bool
  | .stepShown _ _ | .cleared => true
  | .themeSet _ => h.current.isSome
  | .resized _ _ => h.current.isSome && !h.isCentered

/-- The last event at which the highlighter drew. -/
def lastEffective? (h : Highlighter) : List Event → Option Event
  | [] => none
  | e :: events => (lastEffective? (h.handle e) events).or (if e.isEffective h then some e else none)

/-- What a highlighter was told: the line of the current step, if there is one, and how its nodes look. -/
abbrev View := Option Int × Look

/-- What a highlighter was told so far. -/
def view (h : Highlighter) : View := (h.current, h.look)

/-- What is told by an event. -/
def Event.tell (view : View) : Event → View
  | .stepShown line bindings => (some line, { view.2 with bindings := bindings })
  | .themeSet theme => (view.1, { view.2 with theme := theme })
  | .resized _ _ | .cleared => view

/-- A new highlighter that gets the drawing and is told the current step, and nothing else. -/
def anew (settings : Settings) (g : Graph) (d : Element) (view : View) : Highlighter :=
  let h : Highlighter := { settings := settings, theme := view.2.theme, inputs := view.2.inputs }
  match view.1 with
  | none => h.graphReady d g
  | some line => (h.graphReady d g).showStep line view.2.bindings

/-- The last event is handled after all others. -/
theorem after_snoc (h : Highlighter) (events : List Event) (e : Event) :
    h.after (events ++ [e]) = (h.after events).handle e := by
  rw [after, List.foldl_append]
  rfl

/-- The last event that had an effect is the last one, if it had. -/
theorem lastEffective?_snoc (h : Highlighter) (events : List Event) (e : Event) :
    lastEffective? h (events ++ [e]) =
      if e.isEffective (h.after events) then some e else lastEffective? h events := by
  induction events generalizing h with
  | nil => exact Option.none_or
  | cons first events ih =>
      have hafter : (h.handle first).after events = h.after (first :: events) := rfl
      rw [List.cons_append, lastEffective?, ih, lastEffective?, hafter]
      split_ifs <;> simp

/-! ### What an event does -/

/-- The highlighters have one drawing and highlight the same in it. -/
structure SamePicture (h h' : Highlighter) : Prop where
  graph_eq : h'.graph = h.graph
  drawing_eq : h'.drawing = h.drawing
  targets_eq : h'.targets = h.targets
  isReady_eq : h'.isReady = h.isReady
  highlighted_eq : h'.highlighted = h.highlighted

/-- A highlighter shows what it shows. -/
theorem SamePicture.refl (h : Highlighter) : SamePicture h h := ⟨rfl, rfl, rfl, rfl, rfl⟩

/-- Scrolling changes nothing that is shown. -/
theorem samePicture_scroll (h : Highlighter) : SamePicture h h.scroll ∧ h.scroll.view = h.view := by
  rw [scroll]
  split
  · exact ⟨SamePicture.refl h, rfl⟩
  · exact ⟨⟨rfl, rfl, rfl, rfl, rfl⟩, rfl⟩

/-- Showing the current step changes nothing of what was told. -/
theorem view_apply (h : Highlighter) : h.apply.view = h.view ∧ h.apply.isReady = h.isReady := by
  obtain ⟨highlighted, drawing, targets, heq⟩ := sameView_apply h
  rw [heq]
  exact ⟨rfl, rfl⟩

/-- A new width is told of, and the current step drawn and scrolled to if that was not done yet. -/
theorem exists_resized_eq (h : Highlighter) (container chart : Option Number) :
    ∃ told : Highlighter, (∃ zoom, told = { h with zoom := zoom }) ∧
      h.handle (.resized container chart) =
        if told.isReady && !told.isCentered && told.current.isSome then
          if told.apply.highlighted.isEmpty then told.apply
          else { told.apply.scroll with isCentered := true }
        else told := by
  cases container with
  | none => exact ⟨h, ⟨h.zoom, rfl⟩, rfl⟩
  | some _ =>
      cases chart with
      | none => exact ⟨h, ⟨h.zoom, rfl⟩, rfl⟩
      | some _ => exact ⟨_, ⟨_, rfl⟩, rfl⟩

/-- An event other than a clearing tells the highlighter something, which then draws if the event is
effective; where it scrolls to makes no difference. -/
theorem exists_told {h : Highlighter} (hready : h.isReady = true) {e : Event} (he : e ≠ .cleared) :
    ∃ told drawn, SamePicture h told ∧ told.view = e.tell h.view ∧
      drawn = (if e.isEffective h then told.apply else told) ∧
      SamePicture drawn (h.handle e) ∧ (h.handle e).view = drawn.view := by
  cases e with
  | cleared => exact absurd rfl he
  | stepShown line bindings =>
      let told : Highlighter := { h with current := some line, bindings := bindings }
      have hhandle : h.handle (.stepShown line bindings) =
          if told.apply.isCentered then told.apply.scroll else told.apply := by
        rw [handle, showStep, if_pos hready]
      refine ⟨told, told.apply, ⟨rfl, rfl, rfl, rfl, rfl⟩, rfl, (if_pos rfl).symm, ?_⟩
      rw [hhandle]
      split_ifs
      · exact samePicture_scroll told.apply
      · exact ⟨SamePicture.refl _, rfl⟩
  | themeSet theme =>
      let told : Highlighter := { h with theme := theme }
      have hcurrent : (told.isReady && told.current.isSome) = h.current.isSome := by
        rw [show told.isReady = true from hready, Bool.true_and]
      have hhandle : h.handle (.themeSet theme) = if h.current.isSome then told.apply else told := by
        rw [← hcurrent]
        rfl
      exact ⟨told, _, ⟨rfl, rfl, rfl, rfl, rfl⟩, rfl, hhandle, SamePicture.refl _, rfl⟩
  | resized container chart =>
      clear he
      obtain ⟨told, ⟨zoom, hzoom⟩, hhandle⟩ := exists_resized_eq h container chart
      have hdraw : (told.isReady && !told.isCentered && told.current.isSome) =
          (h.current.isSome && !h.isCentered) := by
        rw [hzoom]
        dsimp only
        rw [hready, Bool.true_and, Bool.and_comm]
      rw [hdraw] at hhandle
      refine ⟨told, _, hzoom ▸ ⟨rfl, rfl, rfl, rfl, rfl⟩, hzoom ▸ rfl, rfl, ?_⟩
      rw [hhandle]
      have heffect : Event.isEffective h (.resized container chart) =
          (h.current.isSome && !h.isCentered) := rfl
      rw [heffect]
      obtain ⟨hsame, hview⟩ := samePicture_scroll told.apply
      split_ifs
      · exact ⟨SamePicture.refl _, rfl⟩
      · exact ⟨⟨hsame.graph_eq, hsame.drawing_eq, hsame.targets_eq, hsame.isReady_eq,
          hsame.highlighted_eq⟩, hview⟩
      · exact ⟨SamePicture.refl _, rfl⟩

/-- A highlighter that has a new drawing and has drawn nothing in it yet. -/
def withDrawing (h : Highlighter) (d : Element) (g : Graph) : Highlighter :=
  { h with
    drawing := some d
    graph := g
    targets := targetsIn g d
    highlighted := []
    isReady := true
    isCentered := false }

/-- A new drawing is taken, and the current step is shown in it, if there is one. -/
theorem graphReady_eq (h : Highlighter) (d : Element) (g : Graph) : h.graphReady d g =
    if h.current.isSome then (h.withDrawing d g).apply else h.withDrawing d g := rfl

/-- A new drawing tells nothing. -/
theorem view_graphReady (h : Highlighter) (d : Element) (g : Graph) :
    (h.graphReady d g).view = h.view ∧ (h.graphReady d g).isReady = true := by
  rw [graphReady_eq]
  split_ifs
  · exact view_apply (h.withDrawing d g)
  · exact ⟨rfl, rfl⟩

/-- An event tells what it tells, whatever the drawing. -/
theorem view_handle {h : Highlighter} (hready : h.isReady = true) (e : Event) :
    (h.handle e).view = e.tell h.view ∧ (h.handle e).isReady = true := by
  by_cases he : e = .cleared
  · subst he
    obtain ⟨drawing, targets, heq⟩ := sameView_clear h
    rw [handle, heq]
    exact ⟨rfl, hready⟩
  · obtain ⟨told, drawn, hsame, hview, hdrawn, hpicture, hviews⟩ := exists_told hready he
    obtain ⟨happly, happly'⟩ := view_apply told
    rw [hviews, hpicture.isReady_eq, ← hview, ← hready, ← hsame.isReady_eq, hdrawn]
    split_ifs
    · exact ⟨happly, happly'⟩
    · exact ⟨rfl, rfl⟩

/-- What was told after a history is what its events told in turn. -/
theorem view_after {h : Highlighter} (hready : h.isReady = true) (events : List Event) :
    (h.after events).view = events.foldl (fun view e => e.tell view) h.view ∧
      (h.after events).isReady = true := by
  induction events generalizing h with
  | nil => exact ⟨rfl, hready⟩
  | cons e events ih =>
      obtain ⟨hview, hready'⟩ := view_handle hready e
      rw [List.foldl_cons, ← hview]
      exact ih hready'

end Highlighter

open Highlighter

variable {g : Graph} {d : Element} {h : Highlighter} {looks : String → Option Look}

/-- The looks of nodes that are shown by the last event with an effect: none after a clearing, and
otherwise the look of the current step on its line. -/
def looksAfter (g : Graph) (d : Element) (last : Option Event) (view : View) :
    String → Option Look :=
  match last with
  | some .cleared => fun _ => none
  | _ => looksOn g d view.1 view.2

/-- The same picture displays the same looks. -/
theorem Displays.of_samePicture {h' : Highlighter} (hd : Displays g d looks h)
    (hsame : SamePicture h h') : Displays g d looks h' :=
  hd.of_eq hsame.graph_eq hsame.drawing_eq hsame.targets_eq

/-- An event without an effect tells nothing that shows. -/
theorem looksAfter_tell {e : Event} (heffect : e.isEffective h = false) (last : Option Event) :
    looksAfter g d last (e.tell h.view) = looksAfter g d last h.view := by
  cases e with
  | stepShown _ _ | cleared => exact absurd heffect.symm Bool.noConfusion
  | resized _ _ => rfl
  | themeSet theme =>
      have hnone : h.current = none :=
        Option.isNone_iff_eq_none.mp (Option.isSome_eq_false_iff.mp heffect)
      have hlooks : ∀ look, looksOn g d h.current look = fun _ => none := fun look => by
        rw [hnone]
        rfl
      have hview : ∀ look, looksAfter g d last (h.current, look) = fun _ => none := fun look => by
        rw [looksAfter.eq_def]
        split
        · rfl
        · exact hlooks look
      exact (hview _).trans (hview _).symm

/-- An event that has an effect leaves the looks it stands for; another leaves them as they are. -/
theorem Displays.handle (hd : Displays g d looks h) (hclean : Clean g d) (hready : h.isReady = true)
    (e : Event) : Displays g d
      (if e.isEffective h then looksAfter g d (some e) (h.handle e).view else looks) (h.handle e) := by
  by_cases he : e = .cleared
  · subst he
    exact hd.clear hclean
  · obtain ⟨told, drawn, hsame, -, hdrawn, hpicture, hviews⟩ := exists_told hready he
    have htold := hd.of_samePicture hsame
    refine Displays.of_samePicture ?_ hpicture
    cases heffect : e.isEffective h with
    | false =>
        rw [hdrawn, heffect, if_neg Bool.noConfusion, if_neg Bool.noConfusion]
        exact htold
    | true =>
        rw [heffect, if_pos rfl] at hdrawn
        have hlooks : looksAfter g d (some e) (h.handle e).view =
            looksOn g d told.current told.look := by
          rw [hviews, hdrawn, (view_apply told).1]
          cases e with
          | cleared => exact absurd rfl he
          | resized _ _ | stepShown _ _ | themeSet _ => rfl
        rw [if_pos rfl, hlooks, hdrawn]
        exact (htold.apply hclean).1

/-- Whatever is told, the drawing is shown in some looks. -/
theorem Displays.after (hd : Displays g d looks h) (hclean : Clean g d) (hready : h.isReady = true)
    (events : List Event) : ∃ looks, Displays g d looks (h.after events) := by
  induction events generalizing h looks with
  | nil => exact ⟨looks, hd⟩
  | cons e events ih => exact ih (hd.handle hclean hready e) (view_handle hready e).2

/-- What is highlighted after a drawing event: the nodes of the current line. -/
theorem Displays.highlighted_handle (hd : Displays g d looks h) (hclean : Clean g d)
    (hready : h.isReady = true) {e : Event} (he : e ≠ .cleared) (heffect : e.isEffective h = true) :
    (h.handle e).highlighted = (h.handle e).view.1.elim [] (nodesShown g d) := by
  obtain ⟨told, drawn, hsame, -, hdrawn, hpicture, hviews⟩ := exists_told hready he
  rw [heffect, if_pos rfl] at hdrawn
  rw [hpicture.highlighted_eq, hviews, hdrawn, (view_apply told).1]
  exact ((hd.of_samePicture hsame).apply hclean).2

/-- A new drawing is shown as it is, or with the current step. -/
theorem displays_graphReady (hclean : Clean g d) (h : Highlighter) :
    Displays g d (looksAfter g d none h.view) (h.graphReady d g) ∧
      (h.graphReady d g).view = h.view ∧ (h.graphReady d g).isReady = true := by
  have hstart : Displays g d (fun _ => none) (h.withDrawing d g) := by
    refine ⟨rfl, fun _ => none, d, rfl, ?_, dressed_first g d⟩
    refine (List.map_id _).symm.trans (List.map_congr_left fun t ht => ?_)
    obtain ⟨p, first, -, -, -, hsnapshot⟩ := exists_first_of_mem_targetsIn ht
    rw [id, Target.withSnapshot, ← hsnapshot]
  refine ⟨?_, view_graphReady h d g⟩
  rw [graphReady_eq]
  split_ifs with hcurrent
  · exact (hstart.apply hclean).1
  · have hnone : h.current = none := by simpa using hcurrent
    have hlooks : looksAfter g d none h.view = looksOn g d h.current h.look := rfl
    refine hstart.congr fun t _ => ?_
    rw [hlooks, looksOn, hnone, Option.bind_none]

/-- What a history comes to: the looks of the last event with an effect, for what was told last. -/
theorem displays_after (hclean : Clean g d) (h₀ : Highlighter) (events : List Event) :
    let start := h₀.graphReady d g
    Displays g d (looksAfter g d (lastEffective? start events)
      (events.foldl (fun view e => e.tell view) h₀.view)) (start.after events) := by
  obtain ⟨hdisplays, hview, hready⟩ := displays_graphReady hclean h₀
  intro start
  induction events using List.reverseRecOn with
  | nil => exact hdisplays
  | append_singleton past e ih =>
      obtain ⟨hviews, hreadys⟩ := view_after hready past
      have hhandle := ih.handle hclean hreadys e
      have htold : ((start.after past).handle e).view =
          (past ++ [e]).foldl (fun view e => e.tell view) h₀.view := by
        rw [(view_handle hreadys e).1, hviews, hview, List.foldl_append]
        rfl
      rw [after_snoc, lastEffective?_snoc]
      refine hhandle.congr fun t _ => ?_
      cases heffect : e.isEffective (start.after past) with
      | true => rw [if_pos rfl, if_pos rfl, htold]
      | false =>
          rw [if_neg Bool.noConfusion, if_neg Bool.noConfusion, ← htold,
            (view_handle hreadys e).1, looksAfter_tell heffect, hviews, hview]

/-- A new highlighter shows the step it is told. -/
theorem displays_anew (hclean : Clean g d) (settings : Settings) (view : View) :
    Displays g d (looksOn g d view.1 view.2) (anew settings g d view) := by
  obtain ⟨current, look⟩ := view
  let h : Highlighter := { settings := settings, theme := look.theme, inputs := look.inputs }
  obtain ⟨hdisplays, hview, hready⟩ := displays_graphReady hclean h
  cases current with
  | none => exact hdisplays
  | some line =>
      have hstep := hdisplays.handle hclean hready (.stepShown line look.bindings)
      rw [(view_handle hready (.stepShown line look.bindings)).1, hview] at hstep
      exact hstep

/-- What a highlighter shows after any events is what a new highlighter shows that is told only the
current step with its variables and colours, or the drawing as it was first if the last event with an
effect was a clearing: but for empty styles, and for texts kept in labels. -/
theorem drawing_after (h₀ : Highlighter) (g : Graph) (d : Element) (hclean : Clean g d)
    (events : List Event) :
    let start := h₀.graphReady d g
    let told := events.foldl (fun view e => e.tell view) h₀.view
    ∃ shown expected, (start.after events).drawing = some shown ∧
      (match lastEffective? start events with
        | some .cleared => some d
        | _ => (anew h₀.settings g d told).drawing) = some expected ∧
      shown.mapAll bare = expected.mapAll bare ∧
      ∀ p x, shown.at? p = some x → x.attr? textKept ≠ none →
        ∃ t ∈ targetsIn g d, t.label = some p := by
  intro start told
  obtain ⟨-, snap, shown, hshown, -, hdressed⟩ := displays_after hclean h₀ events
  obtain ⟨-, snap', expected, hexpected, -, hdressed'⟩ := displays_anew hclean h₀.settings told
  have hkept := fun p x => hdressed.label_of_textKept hclean (q := p) (x := x)
  rw [looksAfter.eq_def] at hdressed
  split at hdressed
  next hcleared =>
    refine ⟨shown, d, hshown, ?_, hdressed.bare_eq (dressed_first g d) hclean, hkept⟩
    rw [hcleared]
  next hother =>
    refine ⟨shown, expected, hshown, ?_, hdressed.bare_eq hdressed' hclean, hkept⟩
    exact hexpected

/-! ### A drawing of two nodes -/

/-- Two statements, the second of which reads what the first assigns. -/
def twoNodes : Graph where
  nodes := [⟨"L1_1", .process, "x = y", some 1, none, "x = y"⟩,
    ⟨"L2_2", .process, "print(x)", some 2, none, "print(x)"⟩]
  edges := [⟨"L1_1", "L2_2", none, .solid⟩]

/-- A drawing of them, with a label of its own kind for each. -/
def twoNodesDrawn : Element :=
  ⟨some "svg", [], none, none, [
    ⟨some "g", [("id", "flowchart-L1_1-0"), ("class", "node")], none, none, [
      ⟨some "rect", [("style", "fill:#ececff")], none, none, []⟩,
      ⟨some "foreignObject", [], none, none, [⟨some "p", [], some "x = y", none, []⟩]⟩]⟩,
    ⟨some "g", [("class", "node"), ("id", "flowchart-L2_2-1")], none, none, [
      ⟨some "rect", [("style", "")], none, none, []⟩,
      ⟨some "text", [], some "print(", none, [⟨some "tspan", [], some "x", some ")", []⟩]⟩]⟩]⟩

/-- No node of the drawing of two nodes stands in the other. -/
theorem clean_twoNodesDrawn : Clean twoNodes twoNodesDrawn := by
  constructor <;> decide +kernel

/-- Both statements are shown, in both colours, and everything is cleared. -/
def twoSteps : List Event :=
  [.stepShown 1 [("x", "2"), ("y", "3")], .themeSet .dark, .resized (some (.whole 840)) none,
    .stepShown 2 [("x", "2")], .cleared]

/-- A drawing of two nodes is painted in the course of a history, and as it was first when the last
event has cleared it. -/
theorem drawing_after_twoSteps :
    let start := ({} : Highlighter).graphReady twoNodesDrawn twoNodes
    Clean twoNodes twoNodesDrawn ∧
      (((start.after (twoSteps.take 4)).drawing.bind (·.at? [1, 0])).bind (·.attr? "style") =
        some Theme.dark.shapeStyle) ∧
      ∃ shown, (start.after twoSteps).drawing = some shown ∧
        shown.mapAll bare = twoNodesDrawn.mapAll bare := by
  refine ⟨clean_twoNodesDrawn, by decide +kernel, ?_⟩
  obtain ⟨shown, expected, hshown, hexpected, hbare, -⟩ :=
    drawing_after {} twoNodes twoNodesDrawn clean_twoNodesDrawn twoSteps
  -- the last event clears
  have heq : some twoNodesDrawn = some expected := hexpected
  obtain rfl := Option.some.inj heq
  exact ⟨shown, hshown, hbare⟩

end Flowchart
