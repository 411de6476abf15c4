import Flowchart.Proofs.Highlight.Looks
import Flowchart.Proofs.Highlight.Targets
import Mathlib.Logic.Function.Basic

/-!
# What a highlighter shows

A highlighter `Displays` a drawing with looks if each node of the drawing wears its look and all other
elements are as they were first. Undoing one node takes its look away (`Displays.clearNode`),
highlighting one node gives it the highlighter's look (`Displays.showNode`), and neither touches another
node. So clearing leaves no look at all (`Displays.clear`), and showing the current step leaves its look
on the nodes of its line and on no others (`Displays.apply`).

All of this is about a drawing that is `Clean`: no node stands in another, so what is done to one does
not reach the others, and nothing that a highlighter points to is lost when a label gets new text
(`Clean.map_cutBelow`).

## Looks and snapshots

A `Look` is what a highlighter puts on a node: a theme, inputs and values. The state of a drawing is a
function from nodes to looks, so undoing one node and highlighting one node are updates of that
function, and a list of nodes is dealt with by a fold. The snapshot of a label is kept apart from the
look: it is taken when the label first gets values, and it stays when the look goes.

## Main results

* `Displays.clear`: after clearing no node wears a look.
* `Displays.apply`: after showing a step the nodes of its line wear the look of the highlighter, and
  no others do.
* `Clean.map_cutBelow`: in a clean drawing new text in one label loses none of the places that a
  highlighter points to.
-/

namespace Flowchart

open Element

/-- A target with the snapshot of its label. -/
def Target.withSnapshot (snap : String → Option Element) (t : Target) : Target :=
  { t with snapshot := snap t.node }

/-- The drawing `shown` is `d` with each node in its look, where `snap` has the snapshots of labels. -/
structure Dressed (g : Graph) (d : Element) (looks : String → Option Look)
    (snap : String → Option Element) (shown : Element) : Prop where
  wears : ∀ t ∈ targetsIn g d, ∀ p ∈ t.place, ∀ first, d.at? p = some first →
    ∃ e, shown.at? p = some e ∧ Wears first (looks t.node) (snap t.node) e
  elsewhere : ∀ q, (∀ t ∈ targetsIn g d, ∀ p ∈ t.place, ¬ p <+: q) →
    (shown.at? q).map head = (d.at? q).map head

/-- The highlighter shows the drawing `d` of the graph `g` with each node in its look. -/
structure Displays (g : Graph) (d : Element) (looks : String → Option Look) (h : Highlighter) :
    Prop where
  graph_eq : h.graph = g
  exists_dressed : ∃ snap shown, h.drawing = some shown ∧
    h.targets = (targetsIn g d).map (Target.withSnapshot snap) ∧ Dressed g d looks snap shown

variable {g : Graph} {d : Element}

/-- A listed node stands at an element, and its label there. -/
theorem exists_first_of_mem_targetsIn {t : Target} (ht : t ∈ targetsIn g d) :
    ∃ p first, d.at? p = some first ∧ t.place = some p ∧ t.label = first.label?.map (p ++ ·) ∧
      t.snapshot = none := by
  obtain ⟨p, first, n, hfirst, -, rfl⟩ := exists_of_mem_targetsIn ht
  exact ⟨p, first, hfirst, rfl, rfl, rfl⟩

/-- The element of a node in a clean drawing is untouched. -/
theorem Clean.untouched (h : Clean g d) {t : Target} (ht : t ∈ targetsIn g d) {p : Path}
    (hp : t.place = some p) {first : Element} (hfirst : d.at? p = some first) :
    Untouched first := by
  have hat : ∀ q x, first.at? q = some x → (p ++ q, x) ∈ d.descendants := fun q x hx => by
    rw [mem_descendants, at?_append, hfirst]
    exact hx
  refine ⟨fun q x hx => h.unkept _ (hat q x hx), fun l hl x hx q y hy => ?_⟩
  obtain ⟨p', first', hfirst', hp', hlabel, -⟩ := exists_first_of_mem_targetsIn ht
  obtain rfl := Option.some.inj (hp.symm.trans hp')
  obtain rfl := Option.some.inj (hfirst.symm.trans hfirst')
  have hy' : first.at? (l ++ q) = some y := by
    rw [at?_append, hx]
    exact hy
  refine h.label_plain t ht (p ++ l) (by rw [hlabel, hl]; rfl) _ (hat (l ++ q) y hy') ?_
  rw [← List.append_assoc]
  exact List.prefix_append _ _

/-! ### Drawings in looks -/

section Dressed

variable {looks looks' : String → Option Look} {snap snap' : String → Option Element}
  {shown shown' : Element}

/-- At first no node of a drawing wears a look. -/
theorem dressed_first (g : Graph) (d : Element) :
    Dressed g d (fun _ => none) (fun _ => none) d :=
  ⟨fun _ _ _ _ first hfirst => ⟨first, hfirst, wears_first first⟩, fun _ _ => rfl⟩

/-- Only the looks of listed nodes count. -/
theorem Dressed.congr (h : Dressed g d looks snap shown)
    (hlooks : ∀ t ∈ targetsIn g d, looks t.node = looks' t.node) :
    Dressed g d looks' snap shown where
  wears := fun t ht p hp first hfirst => by
    rw [← hlooks t ht]
    exact h.wears t ht p hp first hfirst
  elsewhere := h.elsewhere

/-- The element of a node, as it was first and as it is shown. -/
theorem Dressed.exists_wears (h : Dressed g d looks snap shown) (hclean : Clean g d) {t : Target}
    (ht : t ∈ targetsIn g d) {p : Path} (hp : t.place = some p) :
    ∃ first e, d.at? p = some first ∧ shown.at? p = some e ∧ t.label = first.label?.map (p ++ ·) ∧
      Untouched first ∧ Wears first (looks t.node) (snap t.node) e := by
  obtain ⟨p', first, hfirst, hp', hlabel, -⟩ := exists_first_of_mem_targetsIn ht
  obtain rfl := Option.some.inj (hp.symm.trans hp')
  obtain ⟨e, he, hw⟩ := h.wears t ht p hp first hfirst
  exact ⟨first, e, hfirst, he, hlabel, hclean.untouched ht hp hfirst, hw⟩

/-- What is shown stands in the element of a node, or it is what stood there first. -/
theorem Dressed.exists_node_or_first (h : Dressed g d looks snap shown) (hclean : Clean g d)
    {q : Path} {x : Element} (hx : shown.at? q = some x) :
    (∃ t ∈ targetsIn g d, ∃ p r first e, t.place = some p ∧ q = p ++ r ∧ d.at? p = some first ∧
        t.label = first.label?.map (p ++ ·) ∧ Untouched first ∧
        Wears first (looks t.node) (snap t.node) e ∧ e.at? r = some x) ∨
      ∃ x₀, d.at? q = some x₀ ∧ head x₀ = head x := by
  by_cases hq : ∃ t ∈ targetsIn g d, ∃ p ∈ t.place, p <+: q
  · obtain ⟨t, ht, p, hp, r, rfl⟩ := hq
    obtain ⟨first, e, hfirst, he, hlabel, huntouched, hw⟩ := h.exists_wears hclean ht hp
    rw [at?_append, he] at hx
    exact Or.inl ⟨t, ht, p, r, first, e, hp, rfl, hfirst, hlabel, huntouched, hw, hx⟩
  · have hhead := h.elsewhere q fun t ht p hp hpq => hq ⟨t, ht, p, hp, hpq⟩
    rw [hx, Option.map_some] at hhead
    exact Or.inr (Option.map_eq_some_iff.mp hhead.symm)

/-- A change of the element of one node leaves all others as they are. -/
theorem Dressed.modify (h : Dressed g d looks snap shown) (hclean : Clean g d) {t : Target}
    (ht : t ∈ targetsIn g d) {p : Path} (hp : t.place = some p) {first e : Element}
    (hfirst : d.at? p = some first) (he : shown.at? p = some e) {f : Element → Element}
    {look : Option Look} {snapshot : Option Element} (hf : Wears first look snapshot (f e)) :
    Dressed g d (Function.update looks t.node look) (Function.update snap t.node snapshot)
      (shown.modifyAt p f) where
  wears := fun u hu q hq first' hfirst' => by
    by_cases hut : u.node = t.node
    · obtain rfl := eq_of_node_eq hu ht hut
      obtain rfl := Option.some.inj (hp.symm.trans hq)
      obtain rfl := Option.some.inj (hfirst.symm.trans hfirst')
      refine ⟨f e, by rw [at?_modifyAt_self, he, Option.map_some], ?_⟩
      rwa [Function.update_self, Function.update_self]
    · have hpq : ¬ p <+: q := fun hpq =>
        hut (congrArg Target.node (hclean.eq_of_prefix ht hu hp hq hpq).symm)
      have hqp : ¬ q <+: p := fun hqp =>
        hut (congrArg Target.node (hclean.eq_of_prefix hu ht hq hp hqp))
      rw [at?_modifyAt_of_apart shown f hpq hqp, Function.update_of_ne hut,
        Function.update_of_ne hut]
      exact h.wears u hu q hq first' hfirst'
  elsewhere := fun q hq => by
    rw [map_head_at?_modifyAt shown f (hq t ht p hp)]
    exact h.elsewhere q hq

/-- The looks of the nodes determine what is shown, but for the texts kept in labels and for empty
styles. -/
theorem Dressed.bare_eq (h : Dressed g d looks snap shown) (h' : Dressed g d looks snap' shown')
    (hclean : Clean g d) : mapAll bare shown = mapAll bare shown' := by
  refine eq_of_heads fun q => ?_
  by_cases hq : ∃ t ∈ targetsIn g d, ∃ p ∈ t.place, p <+: q
  · obtain ⟨t, ht, p, hp, r, rfl⟩ := hq
    obtain ⟨first, e, hfirst, he, -, huntouched, hw⟩ := h.exists_wears hclean ht hp
    obtain ⟨e', he', hw'⟩ := h'.wears t ht p hp first hfirst
    rw [at?_append, at?_append, at?_mapAll shallow_bare, at?_mapAll shallow_bare, he, he',
      Option.map_some, Option.map_some, hw.bare_eq hw' huntouched]
  · have hout : ∀ t ∈ targetsIn g d, ∀ p ∈ t.place, ¬ p <+: q := fun t ht p hp hpq =>
      hq ⟨t, ht, p, hp, hpq⟩
    rw [map_head_at?_mapAll shallow_bare, map_head_at?_mapAll shallow_bare, h.elsewhere q hout,
      h'.elsewhere q hout]

/-- Texts are kept in the labels of listed nodes only. -/
theorem Dressed.label_of_textKept (h : Dressed g d looks snap shown) (hclean : Clean g d) {q : Path}
    {x : Element} (hx : shown.at? q = some x) (hkept : x.attr? textKept ≠ none) :
    ∃ t ∈ targetsIn g d, t.label = some q := by
  rcases h.exists_node_or_first hclean hx with
    ⟨t, ht, p, r, first, e, -, rfl, -, hlabel, huntouched, hw, hx⟩ | ⟨x₀, hx₀, hhead⟩
  · have hr := hw.label_of_textKept huntouched hx hkept
    exact ⟨t, ht, by rw [hlabel, hr, Option.map_some]⟩
  · rw [← attr?_of_head_eq hhead] at hkept
    exact absurd (hclean.unkept _ (mem_descendants.mpr hx₀)).2 hkept

/-- Shapes of a node with a look have the style of its theme. -/
theorem Dressed.style_eq (h : Dressed g d looks snap shown) (hclean : Clean g d) {t : Target}
    (ht : t ∈ targetsIn g d) {p : Path} (hp : t.place = some p) {k : Look}
    (hlook : looks t.node = some k) {r : Path} {x : Element} (hx : shown.at? (p ++ r) = some x)
    (hshape : isShape x = true) : x.attr? "style" = some k.theme.shapeStyle := by
  obtain ⟨first, e, -, he, -, huntouched, hw⟩ := h.exists_wears hclean ht hp
  rw [at?_append, he] at hx
  exact hw.style_eq huntouched hlook hx hshape

/-- What is no shape of a node with a look has no style of highlighted shapes, if nothing had one
first. -/
theorem Dressed.style_ne (h : Dressed g d looks snap shown) (hclean : Clean g d) (hd : IsPlain d)
    {q : Path} {x : Element} (hx : shown.at? q = some x)
    (hother : ∀ t ∈ targetsIn g d, ∀ p ∈ t.place, p <+: q → isShape x = true →
      looks t.node = none) (theme : Theme) : x.attr? "style" ≠ some theme.shapeStyle := by
  rcases h.exists_node_or_first hclean hx with
    ⟨t, ht, p, r, first, e, hp, rfl, hfirst, -, huntouched, hw, hx⟩ | ⟨x₀, hx₀, hhead⟩
  · have hplain : IsPlain first := fun r y hy => hd (p ++ r) y (by
      rw [at?_append, hfirst]
      exact hy)
    have hshape : isShape x = false ∨ looks t.node = none := by
      cases hshape : isShape x with
      | false => exact Or.inl rfl
      | true => exact Or.inr (hother t ht p hp (List.prefix_append p r) hshape)
    exact hw.style_ne huntouched hplain hx hshape theme
  · rw [← attr?_of_head_eq hhead]
    exact hd q x₀ hx₀ theme

end Dressed

/-! ### Pointing into labels -/

/-- A target that points to nothing within an element loses nothing with what is in it. -/
theorem Target.cutBelow_eq_self {path : Path} {t : Target}
    (hplace : ∀ p ∈ t.place, isBelow path p = false)
    (hlabel : ∀ p ∈ t.label, isBelow path p = false) : t.cutBelow path = t := by
  have hkeep : ∀ way : Option Path, (∀ p ∈ way, isBelow path p = false) →
      (way.filter fun p => !isBelow path p) = way := by
    intro way h
    cases way with
    | none => rfl
    | some p => exact Option.filter_some_pos (by simp [h p rfl])
  obtain ⟨node, elementId, place, label, snapshot⟩ := t
  simp only [Target.cutBelow, hkeep place hplace, hkeep label hlabel]

/-- New text in the label of a node loses nothing that is pointed to. -/
theorem Clean.map_cutBelow (h : Clean g d) {t : Target} (ht : t ∈ targetsIn g d) {path : Path}
    (hpath : t.label = some path) (snap : String → Option Element) :
    ((targetsIn g d).map (Target.withSnapshot snap)).map (Target.cutBelow path) =
      (targetsIn g d).map (Target.withSnapshot snap) := by
  obtain ⟨p, first, hfirst, hp, hlabel, -⟩ := exists_first_of_mem_targetsIn ht
  obtain ⟨l, hl, rfl⟩ := Option.map_eq_some_iff.mp (hlabel.symm.trans hpath)
  -- whatever lies below the label lies in the element of the same node
  have hsame : ∀ u ∈ targetsIn g d, ∀ q ∈ u.place, ∀ r, isBelow (p ++ l) (q ++ r) = true →
      u = t ∧ l.length < r.length := by
    intro u hu q hq r hbelow
    simp only [isBelow, Bool.and_eq_true, decide_eq_true_eq, List.isPrefixOf_iff_prefix] at hbelow
    obtain ⟨hle, hlength⟩ := hbelow
    have hu : u = t := by
      rcases List.prefix_or_prefix_of_prefix ((List.prefix_append p l).trans hle)
        (List.prefix_append q r) with hpq | hqp
      · exact (h.eq_of_prefix ht hu hp hq hpq).symm
      · exact h.eq_of_prefix hu ht hq hp hqp
    subst hu
    obtain rfl := Option.some.inj (hp.symm.trans hq)
    rw [List.length_append, List.length_append] at hlength
    exact ⟨rfl, by omega⟩
  rw [List.map_map]
  refine List.map_congr_left fun u hu => ?_
  obtain ⟨q, first', hfirst', hq, hlabel', -⟩ := exists_first_of_mem_targetsIn hu
  refine Target.cutBelow_eq_self (fun q' hq' => ?_) (fun q' hq' => ?_)
  · obtain rfl : q = q' := Option.some.inj (hq.symm.trans hq')
    refine Bool.eq_false_iff.mpr fun hbelow => ?_
    have hlength := (hsame u hu q hq [] (by rwa [List.append_nil])).2
    exact Nat.not_lt_zero _ hlength
  · obtain ⟨l', hl', rfl⟩ := Option.map_eq_some_iff.mp (hlabel'.symm.trans hq')
    refine Bool.eq_false_iff.mpr fun hbelow => ?_
    obtain ⟨rfl, hlength⟩ := hsame u hu q hq l' hbelow
    obtain rfl := Option.some.inj (hp.symm.trans hq)
    obtain rfl := Option.some.inj (hfirst.symm.trans hfirst')
    obtain rfl := Option.some.inj (hl.symm.trans hl')
    exact Nat.lt_irrefl _ hlength

/-! ### Undoing and highlighting -/

namespace Highlighter

/-- The look of the nodes that a highlighter highlights. -/
def look (h : Highlighter) : Look := ⟨h.theme, h.inputs, h.bindings⟩

variable {h : Highlighter} {looks : String → Option Look} {snap : String → Option Element}
  {shown : Element}

/-- The target of a node is the one that was found first, with the snapshot that was taken since. -/
theorem target?_eq (htargets : h.targets = (targetsIn g d).map (Target.withSnapshot snap))
    (node : String) : h.target? node =
      ((targetsIn g d).find? (·.node == node)).map (Target.withSnapshot snap) := by
  rw [target?, htargets, List.find?_map]
  rfl

/-- Each target that was found is the one of its node. -/
theorem target?_of_mem (htargets : h.targets = (targetsIn g d).map (Target.withSnapshot snap))
    {t : Target} (ht : t ∈ targetsIn g d) : h.target? t.node = some (t.withSnapshot snap) := by
  have hfound : ((targetsIn g d).find? (·.node == t.node)).isSome = true :=
    List.find?_isSome.mpr ⟨t, ht, beq_self_eq_true _⟩
  obtain ⟨u, hu⟩ := Option.isSome_iff_exists.mp hfound
  have hut : u = t := eq_of_node_eq (List.mem_of_find?_eq_some hu) ht (by
    simpa using List.find?_some hu)
  rw [target?_eq htargets, hu, hut, Option.map_some]

/-- The highlighter with another drawing. -/
def redraw (h : Highlighter) (drawing : Element) : Highlighter := { h with drawing := some drawing }

/-- Changing the element at a path draws the drawing anew, changed there. -/
theorem modify_eq (hdrawing : h.drawing = some shown) (p : Path) (f : Element → Element) :
    h.modify (some p) f = h.redraw (shown.modifyAt p f) := by
  rw [modify, hdrawing]
  rfl

/-- New text in a label changes the drawing only. -/
theorem relabel_eq (hclean : Clean g d) (hdrawing : h.drawing = some shown)
    (htargets : h.targets = (targetsIn g d).map (Target.withSnapshot snap)) {t : Target}
    (ht : t ∈ targetsIn g d) {path : Path} (hpath : t.label = some path) (f : Element → Element) :
    h.relabel path f = h.redraw (shown.modifyAt path f) := by
  have hcut : (h.redraw (shown.modifyAt path f)).targets.map (Target.cutBelow path) = h.targets := by
    change h.targets.map (Target.cutBelow path) = h.targets
    rw [htargets, hclean.map_cutBelow ht hpath snap]
  rw [relabel, modify_eq hdrawing]
  simp only [hcut]
  rfl

/-- Without a snapshot there is nothing to restore. -/
theorem restoreLabel_of_none
    (htargets : h.targets = (targetsIn g d).map (Target.withSnapshot snap)) {t : Target}
    (ht : t ∈ targetsIn g d) (hs : snap t.node = none) : h.restoreLabel t.node = h := by
  have hsnap : (t.withSnapshot snap).snapshot = none := hs
  rw [restoreLabel, target?_of_mem htargets ht]
  simp only [hsnap]

/-- A label that keeps its text is drawn as its snapshot again. -/
theorem restoreLabel_of_some (hclean : Clean g d) (hdrawing : h.drawing = some shown)
    (htargets : h.targets = (targetsIn g d).map (Target.withSnapshot snap)) {t : Target}
    (ht : t ∈ targetsIn g d) {path : Path} (hpath : t.label = some path) {s label : Element}
    (hs : snap t.node = some s) (hlabel : shown.at? path = some label)
    (hkept : (label.attr? textKept).isSome = true) :
    h.restoreLabel t.node = h.redraw (shown.modifyAt path (restore s)) := by
  have hsnap : (t.withSnapshot snap).snapshot = some s := hs
  have hpath' : (t.withSnapshot snap).label = some path := hpath
  rw [restoreLabel, target?_of_mem htargets ht]
  simp only [hsnap, hpath', hdrawing, Option.bind_some, hlabel, hkept, if_true]
  exact relabel_eq hclean hdrawing htargets ht hpath (restore s)

/-- Undoing a node undoes the paint first, and then its label. -/
theorem clearNode_eq_restoreLabel (hdrawing : h.drawing = some shown)
    (htargets : h.targets = (targetsIn g d).map (Target.withSnapshot snap)) {t : Target}
    (ht : t ∈ targetsIn g d) {p : Path} (hp : t.place = some p) :
    h.clearNode t.node = (h.redraw (shown.modifyAt p (mapAll unpaint))).restoreLabel t.node := by
  have hplace : (t.withSnapshot snap).place = some p := hp
  rw [clearNode, target?_of_mem htargets ht]
  simp only [hplace, modify_eq hdrawing]

/-- Undoing a node changes its element, and nothing else. -/
theorem clearNode_eq (hclean : Clean g d) (hdrawing : h.drawing = some shown)
    (htargets : h.targets = (targetsIn g d).map (Target.withSnapshot snap)) {t : Target}
    (ht : t ∈ targetsIn g d) {p : Path} (hp : t.place = some p) {first e : Element}
    (huntouched : Untouched first) (hlabel : t.label = first.label?.map (p ++ ·))
    (he : shown.at? p = some e) {look : Option Look} (hw : Wears first look (snap t.node) e) :
    h.clearNode t.node = h.redraw (shown.modifyAt p (undone first.label? (snap t.node))) := by
  have htargets' : (h.redraw (shown.modifyAt p (mapAll unpaint))).targets =
      (targetsIn g d).map (Target.withSnapshot snap) := htargets
  rw [clearNode_eq_restoreLabel hdrawing htargets ht hp]
  cases hs : snap t.node with
  | none => exact restoreLabel_of_none htargets' ht hs
  | some s =>
      rw [hs] at hw
      obtain ⟨l, hl, -⟩ := hw.snapshot_eq s rfl
      obtain ⟨label, hat, hkept⟩ := hw.isSome_textKept huntouched hl
      have hpath : t.label = some (p ++ l) := by rw [hlabel, hl, Option.map_some]
      have hfound : (shown.modifyAt p (mapAll unpaint)).at? (p ++ l) = some label := by
        rw [at?_modifyAt_append, he]
        exact hat
      rw [restoreLabel_of_some hclean rfl htargets' ht hpath hs hfound hkept, modifyAt_append,
        modifyAt_modifyAt, hl]
      rfl

/-- A snapshot of one label more. -/
theorem keepLabel_targets (htargets : h.targets = (targetsIn g d).map (Target.withSnapshot snap))
    (node : String) (label : Element) : (h.keepLabel node label).targets =
      (targetsIn g d).map (Target.withSnapshot
        (Function.update snap node ((snap node).or (some label)))) := by
  rw [keepLabel, htargets, List.map_map]
  refine List.map_congr_left fun t _ => ?_
  by_cases hnode : t.node = node
  · simp [Target.withSnapshot, hnode]
  · simp [Target.withSnapshot, hnode]

/-- Without a label there is no place for values. -/
theorem injectLabel_of_none
    (htargets : h.targets = (targetsIn g d).map (Target.withSnapshot snap)) {t : Target}
    (ht : t ∈ targetsIn g d) (hlabel : t.label = none) : h.injectLabel t.node = h := by
  have hnone : (t.withSnapshot snap).label = none := hlabel
  rw [injectLabel, target?_of_mem htargets ht]
  simp only [Option.bind_some, hnone]

/-- A label is kept first, and then its text is drawn with the values. -/
theorem injectLabel_of_some (hclean : Clean g d) (hdrawing : h.drawing = some shown)
    (htargets : h.targets = (targetsIn g d).map (Target.withSnapshot snap)) {t : Target}
    (ht : t ∈ targetsIn g d) {path : Path} (hpath : t.label = some path) {label : Element}
    (hlabel : shown.at? path = some label) :
    h.injectLabel t.node = (h.keepLabel t.node label).redraw
      (shown.modifyAt path h.look.inject) := by
  have hpath' : (t.withSnapshot snap).label = some path := hpath
  rw [injectLabel, target?_of_mem htargets ht]
  simp only [Option.bind_some, hpath', hdrawing, hlabel]
  exact relabel_eq (h := h.keepLabel t.node label) hclean hdrawing
    (keepLabel_targets htargets t.node label) ht hpath _

/-- Highlighting a node changes its element, and keeps a snapshot of the label that gets values. -/
theorem showNode_eq (hclean : Clean g d) (hdrawing : h.drawing = some shown)
    (htargets : h.targets = (targetsIn g d).map (Target.withSnapshot snap)) {t : Target}
    (ht : t ∈ targetsIn g d) {p : Path} (hp : t.place = some p) {first e : Element}
    (hlabel : t.label = first.label?.map (p ++ ·)) (he : shown.at? p = some e)
    (hpainted : ∀ l ∈ first.label?, ∃ label, (mapAll (paint h.theme) e).at? l = some label) :
    (h.showNode t.node).drawing = some (shown.modifyAt p (redone h.look first.label?)) ∧
      (h.showNode t.node).targets = (targetsIn g d).map (Target.withSnapshot
        (Function.update snap t.node (if h.look.isLettered
          then (snap t.node).or (first.label?.bind (mapAll (paint h.theme) e).at?)
          else snap t.node))) := by
  let painted := h.redraw (shown.modifyAt p (mapAll (paint h.theme)))
  have hplace : (t.withSnapshot snap).place = some p := hp
  have htargets' : painted.targets = (targetsIn g d).map (Target.withSnapshot snap) := htargets
  have hlettered : h.look.isLettered = !h.bindings.isEmpty := rfl
  have hshow : h.showNode t.node =
      if h.bindings.isEmpty then painted else painted.injectLabel t.node := by
    rw [showNode, target?_of_mem htargets ht]
    simp only [hplace, modify_eq hdrawing]
    rfl
  cases hbindings : h.bindings.isEmpty with
  | true =>
      have hredone : redone h.look first.label? = mapAll (paint h.theme) := by
        funext x
        rw [redone, hlettered, hbindings]
        rfl
      rw [hshow, hlettered, hbindings, if_pos rfl, hredone, if_neg (by decide),
        Function.update_eq_self]
      exact ⟨rfl, htargets'⟩
  | false =>
      have hredone : redone h.look first.label? =
          modifyLabel first.label? h.look.inject ∘ mapAll (paint h.theme) := by
        funext x
        rw [redone, hlettered, hbindings]
        rfl
      rw [hshow, hlettered, hbindings, if_neg Bool.noConfusion, hredone, Bool.not_false, if_pos rfl]
      cases hl : first.label? with
      | none =>
          rw [injectLabel_of_none htargets' ht (by rw [hlabel, hl, Option.map_none]),
            Option.bind_none, Option.or_none, Function.update_eq_self]
          exact ⟨rfl, htargets'⟩
      | some l =>
          have hpath : t.label = some (p ++ l) := by rw [hlabel, hl, Option.map_some]
          obtain ⟨label, hfound⟩ := hpainted l hl
          have hfound' : (shown.modifyAt p (mapAll (paint h.theme))).at? (p ++ l) = some label := by
            rw [at?_modifyAt_append, he]
            exact hfound
          rw [injectLabel_of_some hclean rfl htargets' ht hpath hfound', Option.bind_some, hfound,
            modifyAt_append, modifyAt_modifyAt]
          exact ⟨rfl, keepLabel_targets htargets' t.node _⟩

/-! ### All nodes -/

/-- The nodes of a line that stand in the drawing, as the graph lists them. -/
def nodesShown (g : Graph) (d : Element) (line : Int) : List String :=
  ((g.nodesOnLine (some line)).map (·.id)).filter fun id =>
    ((targetsIn g d).find? (·.node == id)).isSome

/-- The looks of nodes while a step of a line is shown: the nodes of the line have `look`. -/
def looksOn (g : Graph) (d : Element) (line : Option Int) (look : Look) (node : String) :
    Option Look :=
  line.bind fun line => if node ∈ nodesShown g d line then some look else none

/-- The highlighters differ in what is drawn and in the targets only. -/
def SameView (h h' : Highlighter) : Prop :=
  ∃ drawing targets, h' = { h with drawing := drawing, targets := targets }

/-- Nothing of what is looked at changes. -/
theorem SameView.refl (h : Highlighter) : SameView h h := ⟨_, _, rfl⟩

/-- Changes that nobody looks at stay so in a row. -/
theorem SameView.trans {h' h'' : Highlighter} (hfirst : SameView h h') (hsecond : SameView h' h'') :
    SameView h h'' := by
  obtain ⟨drawing, targets, rfl⟩ := hfirst
  obtain ⟨drawing', targets', rfl⟩ := hsecond
  exact ⟨drawing', targets', rfl⟩

/-- The look depends on what is looked at alone. -/
theorem SameView.look_eq {h' : Highlighter} (hsame : SameView h h') : h'.look = h.look := by
  obtain ⟨drawing, targets, rfl⟩ := hsame
  rfl

/-- Drawing anew changes nothing else. -/
theorem sameView_modify (h : Highlighter) (path : Option Path) (f : Element → Element) :
    SameView h (h.modify path f) := by
  cases path with
  | none => exact SameView.refl h
  | some p => exact ⟨_, _, rfl⟩

/-- A new text in a label changes nothing but the drawing. -/
theorem sameView_relabel (h : Highlighter) (path : Path) (f : Element → Element) :
    SameView h (h.relabel path f) := ⟨_, _, rfl⟩

/-- Restoring a label changes nothing else. -/
theorem sameView_restoreLabel (h : Highlighter) (node : String) :
    SameView h (h.restoreLabel node) := by
  rw [restoreLabel]
  split
  · exact SameView.refl h
  · split
    · split
      · split_ifs
        · exact sameView_relabel h _ _
        · exact SameView.refl h
      · exact SameView.refl h
    · exact SameView.refl h

/-- Clearing a node changes nothing else. -/
theorem sameView_clearNode (h : Highlighter) (node : String) : SameView h (h.clearNode node) := by
  rw [clearNode]
  split
  · exact SameView.refl h
  · exact (sameView_modify h _ _).trans (sameView_restoreLabel _ node)

/-- Showing values in a label changes nothing else. -/
theorem sameView_injectLabel (h : Highlighter) (node : String) : SameView h (h.injectLabel node) := by
  rw [injectLabel]
  split
  · exact SameView.refl h
  · split
    · exact SameView.refl h
    · exact ⟨_, _, rfl⟩

/-- Highlighting a node changes nothing else. -/
theorem sameView_showNode (h : Highlighter) (node : String) : SameView h (h.showNode node) := by
  rw [showNode]
  split
  · exact SameView.refl h
  · dsimp only
    split_ifs
    · exact sameView_modify h _ _
    · exact (sameView_modify h _ _).trans (sameView_injectLabel _ node)

/-- What no node changes, a list of nodes does not change. -/
theorem sameView_foldl {f : Highlighter → String → Highlighter}
    (hf : ∀ h node, SameView h (f h node)) (nodes : List String) (h : Highlighter) :
    SameView h (nodes.foldl f h) := by
  induction nodes generalizing h with
  | nil => exact SameView.refl h
  | cons node nodes ih => exact (hf h node).trans (ih (f h node))

/-- Clearing changes nothing else than the drawing and which nodes are highlighted. -/
theorem sameView_clear (h : Highlighter) : SameView { h with highlighted := [] } h.clear := by
  obtain ⟨drawing, targets, heq⟩ :=
    sameView_foldl sameView_clearNode (h.targets.map (·.node)) h
  exact ⟨drawing, targets, by rw [clear, heq]⟩

/-- Showing the current step changes what is drawn and highlighted, and the targets. -/
theorem sameView_apply (h : Highlighter) :
    ∃ highlighted, SameView { h with highlighted := highlighted } h.apply := by
  obtain ⟨drawing, targets, hclear⟩ := sameView_clear h
  rw [apply]
  dsimp only
  split
  · exact ⟨[], drawing, targets, hclear⟩
  next line _ =>
    obtain ⟨drawing', targets', hshow⟩ :=
      sameView_foldl sameView_showNode (h.clear.nodesOn line) h.clear
    refine ⟨h.clear.nodesOn line, drawing', targets', ?_⟩
    rw [hshow, hclear]

end Highlighter

namespace Displays

open Highlighter

variable {h : Highlighter} {looks looks' : String → Option Look}

/-- Only the looks of listed nodes count. -/
theorem congr (hd : Displays g d looks h)
    (hlooks : ∀ t ∈ targetsIn g d, looks t.node = looks' t.node) : Displays g d looks' h := by
  obtain ⟨hgraph, snap, shown, hdrawing, htargets, hdressed⟩ := hd
  exact ⟨hgraph, snap, shown, hdrawing, htargets, hdressed.congr hlooks⟩

/-- What a node that is not listed gets or loses does not count. -/
theorem update_of_forall_ne (hd : Displays g d looks h) {node : String}
    (hnode : ∀ t ∈ targetsIn g d, t.node ≠ node) (look : Option Look) :
    Displays g d (Function.update looks node look) h :=
  hd.congr fun t ht => (Function.update_of_ne (hnode t ht) look looks).symm

/-- A node that was not found in the drawing has no target. -/
theorem target?_eq_none (hd : Displays g d looks h) {node : String}
    (hnode : ∀ t ∈ targetsIn g d, t.node ≠ node) : h.target? node = none := by
  obtain ⟨-, snap, shown, -, htargets, -⟩ := hd
  rw [target?_eq htargets, Option.map_eq_none_iff, List.find?_eq_none]
  exact fun t ht heq => hnode t ht (by simpa using heq)

/-- Undoing a node takes its look away. -/
theorem clearNode (hd : Displays g d looks h) (hclean : Clean g d) (node : String) :
    Displays g d (Function.update looks node none) (h.clearNode node) := by
  rcases exists_target_or_forall_ne g d node with ⟨t, ht, rfl⟩ | hnode
  · obtain ⟨hgraph, snap, shown, hdrawing, htargets, hdressed⟩ := hd
    obtain ⟨p, -, -, hp, -⟩ := exists_first_of_mem_targetsIn ht
    obtain ⟨first, e, hfirst, he, hlabel, huntouched, hw⟩ := hdressed.exists_wears hclean ht hp
    have hundone := hdressed.modify hclean ht hp hfirst he (hw.undone huntouched)
    rw [Function.update_eq_self] at hundone
    rw [clearNode_eq hclean hdrawing htargets ht hp huntouched hlabel he hw]
    exact ⟨hgraph, snap, _, rfl, htargets, hundone⟩
  · rw [Highlighter.clearNode, hd.target?_eq_none hnode]
    exact hd.update_of_forall_ne hnode none

/-- Highlighting a node gives it the look of the highlighter. -/
theorem showNode (hd : Displays g d looks h) (hclean : Clean g d) {node : String}
    (hlook : looks node = none ∨ looks node = some h.look) :
    Displays g d (Function.update looks node (some h.look)) (h.showNode node) := by
  rcases exists_target_or_forall_ne g d node with ⟨t, ht, rfl⟩ | hnode
  · have hgraph : (h.showNode t.node).graph = g := by
      obtain ⟨drawing, targets, hsame⟩ := sameView_showNode h t.node
      rw [hsame]
      exact hd.graph_eq
    obtain ⟨-, snap, shown, hdrawing, htargets, hdressed⟩ := hd
    obtain ⟨p, -, -, hp, -⟩ := exists_first_of_mem_targetsIn ht
    obtain ⟨first, e, hfirst, he, hlabel, huntouched, hw⟩ := hdressed.exists_wears hclean ht hp
    have hredone := hdressed.modify hclean ht hp hfirst he (hw.redone huntouched h.look hlook)
    obtain ⟨hdrawing', htargets'⟩ := showNode_eq hclean hdrawing htargets ht hp hlabel he
      fun l hl => by
        obtain ⟨label, hat⟩ := exists_at?_of_label? hl
        exact ⟨_, hw.at?_label huntouched hl hat (changesShapes_paint h.theme)⟩
    exact ⟨hgraph, _, _, hdrawing', htargets', hredone⟩
  · rw [Highlighter.showNode, hd.target?_eq_none hnode]
    exact hd.update_of_forall_ne hnode _

/-- While nodes are highlighted there is one look. -/
theorem eq_none_or_look_showNode (hlooks : ∀ node, looks node = none ∨ looks node = some h.look)
    (node other : String) : Function.update looks node (some h.look) other = none ∨
      Function.update looks node (some h.look) other = some (h.showNode node).look := by
  rw [(sameView_showNode h node).look_eq]
  by_cases hother : other = node
  · exact Or.inr (by rw [hother, Function.update_self])
  · rw [Function.update_of_ne hother]
    exact hlooks other

/-- Clearing some nodes takes their looks away and leaves the others alone. -/
theorem foldl_clearNode (hd : Displays g d looks h) (hclean : Clean g d) (nodes : List String) :
    Displays g d (fun node => if node ∈ nodes then none else looks node)
      (nodes.foldl Highlighter.clearNode h) := by
  induction nodes generalizing h looks with
  | nil => simpa using hd
  | cons node nodes ih =>
      refine (ih (hd.clearNode hclean node)).congr fun t _ => ?_
      by_cases hmem : t.node ∈ nodes
      · simp [hmem]
      · by_cases hnode : t.node = node <;> simp [hmem, hnode]

/-- Highlighting some nodes gives them the look of the highlighter and leaves the others alone. -/
theorem foldl_showNode (hd : Displays g d looks h) (hclean : Clean g d) (nodes : List String)
    (hlooks : ∀ node, looks node = none ∨ looks node = some h.look) :
    Displays g d (fun node => if node ∈ nodes then some h.look else looks node)
      (nodes.foldl Highlighter.showNode h) := by
  induction nodes generalizing h looks with
  | nil => simpa using hd
  | cons node nodes ih =>
      have hlook := (sameView_showNode h node).look_eq
      have hrest := ih (hd.showNode hclean (hlooks node)) (eq_none_or_look_showNode hlooks node)
      refine hrest.congr fun t _ => ?_
      rw [hlook]
      by_cases hmem : t.node ∈ nodes
      · simp [hmem]
      · by_cases hnode : t.node = node <;> simp [hmem, hnode]

/-- Other fields than these do not count. -/
theorem of_eq {h' : Highlighter} (hd : Displays g d looks h) (hgraph : h'.graph = h.graph)
    (hdrawing : h'.drawing = h.drawing) (htargets : h'.targets = h.targets) :
    Displays g d looks h' :=
  ⟨hgraph.trans hd.graph_eq, by rw [hdrawing, htargets]; exact hd.exists_dressed⟩

/-- Clearing leaves no look. -/
theorem clear (hd : Displays g d looks h) (hclean : Clean g d) :
    Displays g d (fun _ => none) h.clear := by
  refine Displays.of_eq (h := (h.targets.map (·.node)).foldl Highlighter.clearNode h)
    ((hd.foldl_clearNode hclean _).congr fun t ht => if_pos ?_) rfl rfl rfl
  obtain ⟨-, snap, -, -, htargets, -⟩ := hd
  rw [htargets, List.map_map]
  exact List.mem_map_of_mem ht

/-- The nodes on a line are those of the graph on that line that the drawing shows. -/
theorem nodesOn_eq (hd : Displays g d looks h) (line : Int) :
    h.nodesOn line = nodesShown g d line := by
  obtain ⟨hgraph, snap, shown, -, htargets, -⟩ := hd
  rw [nodesOn, nodesShown, hgraph]
  refine List.filter_congr fun node _ => ?_
  rw [target?_eq htargets, Option.isSome_map]

/-- Showing the current step gives the nodes of its line the look of the highlighter, and no others. -/
theorem apply (hd : Displays g d looks h) (hclean : Clean g d) :
    Displays g d (looksOn g d h.current h.look) h.apply ∧
      h.apply.highlighted = h.current.elim [] (nodesShown g d) := by
  have hcleared := hd.clear hclean
  have hcurrent : h.clear.current = h.current := by
    obtain ⟨drawing, targets, heq⟩ := sameView_clear h
    rw [heq]
  have hlook : h.clear.look = h.look := (sameView_clear h).look_eq
  rw [Highlighter.apply]
  simp only [hcurrent]
  cases h.current with
  | none => exact ⟨hcleared, rfl⟩
  | some line =>
      have hshown := hcleared.foldl_showNode hclean (h.clear.nodesOn line) fun _ => Or.inl rfl
      rw [hlook, hcleared.nodesOn_eq] at hshown
      simp only [hcleared.nodesOn_eq]
      exact ⟨hshown.of_eq rfl rfl rfl, rfl⟩

end Displays

end Flowchart
