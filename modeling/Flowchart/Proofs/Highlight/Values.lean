import Flowchart.Proofs.Highlight.History
import Flowchart.Proofs.Highlight.Lettering

/-!
# Values in labels over a history

What a highlighter makes of the label of one node. Whatever it is told, and whatever is done to other
nodes, the label stays in the drawing with its tag and its plain text (`Holds`): painting changes no
text, new values and the first state of a label leave its plain text, and other labels stand apart. So
when a step is shown, the label of a node that is highlighted shows its first text with the values of
that step, and none of what it showed before (`lettered_showStep`).

No drawing needs to be clean for this, but no label of another node may stand in the label or around
it: what is written into one of the two would be text of the other (`showStep_unlettered`).

## One place over a history

The proofs follow one path through the drawings of a highlighter. `ShowsAt p R h` says that the element
at the path `p` has the property `R`, and each change of the drawing is one of three: it repaints and
changes no text, it writes a label at the path itself, or it writes one that stands apart. `Holds` is
kept in all three cases. `Letters`, which says that the values of a look stand in the label, comes about
when the node is shown, and what is shown of other nodes keeps it (`Holds.letters_foldl_showNode`).

## Main results

* `holds_graphReady`: a new drawing holds the label of each of its nodes.
* `Holds.handle`, `Letters.repaint`: whatever happens it goes on to do so.
* `lettered_showStep`: the label of a highlighted node shows its first text with values.
* `showStep_unlettered`: a label within another one need not.
-/

namespace Flowchart

open Element

namespace Highlighter

/-! ### What is shown at one place -/

/-- The drawing has an element with the property `R` at the way `p`. -/
def ShowsAt (p : Path) (R : Element → Prop) (h : Highlighter) : Prop :=
  ∃ shown x, h.drawing = some shown ∧ shown.at? p = some x ∧ R x

section ShowsAt

variable {p q : Path} {R R' : Element → Prop} {h : Highlighter} {f : Element → Element}

/-- What is shown at a place satisfies two conditions if it satisfies each. -/
theorem ShowsAt.and (hs : ShowsAt p R h) (hs' : ShowsAt p R' h) :
    ShowsAt p (fun x => R x ∧ R' x) h := by
  obtain ⟨shown, x, hshown, hx, hR⟩ := hs
  obtain ⟨shown', x', hshown', hx', hR'⟩ := hs'
  obtain rfl := Option.some.inj (hshown.symm.trans hshown')
  obtain rfl := Option.some.inj (hx.symm.trans hx')
  exact ⟨shown, x, hshown, hx, hR, hR'⟩

/-- Painting keeps what does not depend on more than the text. -/
theorem ShowsAt.repaint (hs : ShowsAt p R h) (hR : ∀ x x', SameText x x' → R x → R x')
    (hf : Repaints f) (path : Option Path) : ShowsAt p R (h.modify path (mapAll f)) := by
  cases path with
  | none => exact hs
  | some q =>
      obtain ⟨shown, x, hshown, hx, hRx⟩ := hs
      obtain ⟨x', hx', hsame⟩ := hf.exists_sameText hx q
      rw [modify_eq hshown]
      exact ⟨_, x', rfl, hx', hR x x' hsame hRx⟩

/-- An element with new text in it is what is made of it. -/
theorem ShowsAt.relabel_self (hs : ShowsAt p R h) (hR : ∀ x, R x → R' (f x)) :
    ShowsAt p R' (h.relabel p f) := by
  obtain ⟨shown, x, hshown, hx, hRx⟩ := hs
  have hdrawing : (h.relabel p f).drawing = some (shown.modifyAt p f) :=
    congrArg drawing (modify_eq hshown p f)
  exact ⟨_, f x, hdrawing, by rw [at?_modifyAt_self, hx, Option.map_some], hR x hRx⟩

/-- New text in another place changes nothing, if none of the two is in the other. -/
theorem ShowsAt.relabel_of_apart (hs : ShowsAt p R h) (hqp : ¬ q <+: p) (hpq : ¬ p <+: q) :
    ShowsAt p R (h.relabel q f) := by
  obtain ⟨shown, x, hshown, hx, hRx⟩ := hs
  have hdrawing : (h.relabel q f).drawing = some (shown.modifyAt q f) :=
    congrArg drawing (modify_eq hshown q f)
  exact ⟨_, x, hdrawing, by rw [at?_modifyAt_of_apart _ _ hqp hpq, hx], hRx⟩

end ShowsAt

/-! ### A label over a history -/

/-- An element has the tag and the plain text of a label. -/
structure SameLabel (first x : Element) : Prop where
  tag_eq : x.tag = first.tag
  plain_eq : plainText x = plainText first

/-- The label of a node, first `first`, is in the drawing at the way `p`, with its tag and its plain
text. No other label lies in it or around it. -/
structure Holds (node : String) (p : Path) (first : Element) (h : Highlighter) : Prop where
  shows : ShowsAt p (SameLabel first) h
  apart : ∀ u ∈ h.targets, ∀ q ∈ u.label, q <+: p ∨ p <+: q → q = p
  label_eq : (h.target? node).bind (·.label) = some p

/-- The label at the way `p` shows its plain text with the values of a look. -/
def Letters (p : Path) (first : Element) (look : Look) (h : Highlighter) : Prop :=
  ShowsAt p (Lettered look (plainText first)) h

section Holds

variable {node : String} {p : Path} {first : Element} {look : Look} {h : Highlighter}

/-- A label that stays the same twice stays the same. -/
theorem SameLabel.trans {x y : Element} (hx : SameLabel first x) (hy : SameLabel x y) :
    SameLabel first y :=
  ⟨hy.tag_eq.trans hx.tag_eq, hy.plain_eq.trans hx.plain_eq⟩

/-- Whether a highlighter holds a label depends on its drawing and targets alone. -/
theorem Holds.of_eq (hh : Holds node p first h) {h' : Highlighter}
    (hdrawing : h'.drawing = h.drawing) (htargets : h'.targets = h.targets) :
    Holds node p first h' where
  shows := by rw [ShowsAt, hdrawing]; exact hh.shows
  apart := by rw [htargets]; exact hh.apart
  label_eq := by rw [target?, htargets]; exact hh.label_eq

/-- Painting keeps the label. -/
theorem Holds.repaint (hh : Holds node p first h) {f : Element → Element} (hf : Repaints f)
    (path : Option Path) : Holds node p first (h.modify path (mapAll f)) := by
  have hshows := hh.shows.repaint
    (fun x x' hsame hx => hx.trans ⟨hsame.tag_eq, hsame.plain_eq⟩) hf path
  cases path with
  | none => exact hh
  | some _ => exact ⟨hshows, hh.apart, hh.label_eq⟩

/-- Repainting leaves the values that a label shows. -/
theorem Letters.repaint (hl : Letters p first look h) {f : Element → Element} (hf : Repaints f)
    (path : Option Path) : Letters p first look (h.modify path (mapAll f)) :=
  ShowsAt.repaint hl (fun _ _ hsame hx => hx.congr hsame) hf path

/-- Targets that are changed, but not in their nodes, are found as before. -/
theorem target?_map (h : Highlighter) {f : Target → Target} (hf : ∀ t, (f t).node = t.node)
    (node : String) :
    target? { h with targets := h.targets.map f } node = (h.target? node).map f := by
  rw [target?, List.find?_map, target?]
  refine congrArg (Option.map f) (congrArg (h.targets.find? ·) (funext fun t => ?_))
  rw [Function.comp_apply, hf]

/-- The snapshot of a label is nothing that shows. -/
theorem Holds.keepLabel (hh : Holds node p first h) (other : String) (label : Element) :
    Holds node p first (h.keepLabel other label) := by
  let keep : Target → Target := fun t =>
    if t.node == other then { t with snapshot := t.snapshot.or (some label) } else t
  have hnode : ∀ t, (keep t).node = t.node := fun t => by
    simp only [keep]
    split_ifs <;> rfl
  have hlabel : ∀ t, (keep t).label = t.label := fun t => by
    simp only [keep]
    split_ifs <;> rfl
  refine ⟨hh.shows, fun u hu q hq => ?_, ?_⟩
  · obtain ⟨v, hv, rfl⟩ := List.mem_map.mp hu
    exact hh.apart v hv q ((hlabel v).symm.trans hq)
  · have heq := hh.label_eq
    rw [Highlighter.keepLabel, target?_map h hnode]
    cases htarget : h.target? node with
    | none => rw [htarget] at heq; exact heq
    | some u =>
        rw [htarget] at heq
        exact (hlabel u).trans heq

/-- New text in a label that is the same or stands apart keeps the label. -/
theorem Holds.relabel (hh : Holds node p first h) {q : Path}
    (hq : q <+: p ∨ p <+: q → q = p) {f : Element → Element}
    (hf : ∀ x, SameLabel x (f x)) : Holds node p first (h.relabel q f) := by
  have hbelow : isBelow q p = false := by
    rw [isBelow, Bool.and_eq_false_iff]
    by_cases hqp : q <+: p
    · obtain rfl := hq (Or.inl hqp)
      exact Or.inr (by simp)
    · refine Or.inl (Bool.not_eq_true _ ▸ fun hle => hqp (List.isPrefixOf_iff_prefix.mp hle))
  refine ⟨?_, fun u hu r hr => ?_, ?_⟩
  · by_cases hnear : q <+: p ∨ p <+: q
    · obtain rfl := hq hnear
      exact hh.shows.relabel_self fun x hx => hx.trans (hf x)
    · rw [not_or] at hnear
      exact hh.shows.relabel_of_apart hnear.1 hnear.2
  · obtain ⟨v, hv, rfl⟩ := List.mem_map.mp hu
    exact hh.apart v hv r (Option.filter_eq_some_iff.mp hr).1
  · have heq := hh.label_eq
    have htarget : (h.relabel q f).target? node = (h.target? node).map (Target.cutBelow q) :=
      target?_map (f := Target.cutBelow q) (h.modify (some q) f) (fun _ => rfl) node
    rw [htarget]
    cases hfound : h.target? node with
    | none => rw [hfound] at heq; exact heq
    | some u =>
        rw [hfound] at heq
        have hu : u.label = some p := heq
        rw [Option.map_some, Option.bind_some, Target.cutBelow, hu]
        simp [hbelow]

/-- What a node is found by points to a label that is the same or stands apart. -/
theorem Holds.apart_of_target? (hh : Holds node p first h) {other : String} {u : Target}
    (hu : h.target? other = some u) {q : Path} (hq : u.label = some q) :
    q <+: p ∨ p <+: q → q = p :=
  hh.apart u (List.mem_of_find?_eq_some hu) q hq

/-- A label that is restored has the tag and the plain text it had. -/
theorem sameLabel_restore (snapshot x : Element) : SameLabel x (restore snapshot x) := by
  cases hkept : x.attr? textKept with
  | none =>
      rw [restore, hkept]
      exact ⟨rfl, rfl⟩
  | some plain =>
      have hrestore : restore snapshot x = { x with
          attrs := put snapshot.attrs textKept plain
          text := snapshot.text
          children := snapshot.children } := by
        simp only [restore, hkept]
      refine ⟨by rw [hrestore], ?_⟩
      rw [plainText, plainText, hkept, hrestore, attr?]
      dsimp only
      rw [get?_put_self]
      rfl

/-- So has a label that gets values. -/
theorem sameLabel_inject (look : Look) (x : Element) : SameLabel x (look.inject x) := by
  obtain ⟨text, parts, heq, -⟩ := exists_inject_eq look.theme look.inputs look.bindings x
  rw [Look.inject, heq]
  refine ⟨rfl, ?_⟩
  have hkept : (x.setAttr textKept ((x.attr? textKept).getD x.content)).attr? textKept =
      some (plainText x) := attr?_setAttr_self _ _ _
  rw [plainText]
  exact congrArg (Option.getD · _) hkept

/-- Restoring any label, the label stays. -/
theorem Holds.restoreLabel (hh : Holds node p first h) (other : String) :
    Holds node p first (h.restoreLabel other) := by
  rw [Highlighter.restoreLabel]
  split
  · exact hh
  next u hu =>
    split
    next snapshot q _ hq =>
      split
      · split_ifs
        · exact hh.relabel (hh.apart_of_target? hu hq) (sameLabel_restore snapshot)
        · exact hh
      · exact hh
    · exact hh

/-- Clearing any node, the label stays. -/
theorem Holds.clearNode (hh : Holds node p first h) (other : String) :
    Holds node p first (h.clearNode other) := by
  rw [Highlighter.clearNode]
  split
  · exact hh
  · exact (hh.repaint repaints_unpaint _).restoreLabel other

/-- What keeps the label for each node keeps it for a list of nodes. -/
theorem Holds.foldl (hh : Holds node p first h) {f : Highlighter → String → Highlighter}
    (hf : ∀ {h : Highlighter} (other : String), Holds node p first h →
      Holds node p first (f h other)) (nodes : List String) :
    Holds node p first (nodes.foldl f h) := by
  induction nodes generalizing h with
  | nil => exact hh
  | cons other nodes ih => exact ih (hf other hh)

/-- Clearing everything, the label stays. -/
theorem Holds.clear (hh : Holds node p first h) : Holds node p first h.clear :=
  (hh.foldl (fun other hh => hh.clearNode other) (h.targets.map Target.node)).of_eq rfl rfl

/-- Values in the label of any node keep the label. -/
theorem Holds.injectLabel (hh : Holds node p first h) (other : String) :
    Holds node p first (h.injectLabel other) := by
  rw [Highlighter.injectLabel]
  split
  · exact hh
  next q hq =>
    obtain ⟨u, hu, hq⟩ := Option.bind_eq_some_iff.mp hq
    split
    · exact hh
    next label _ =>
      exact (hh.keepLabel other label).relabel (hh.apart_of_target? hu hq)
        (sameLabel_inject h.look)

/-- Values in the label of the node show in its text, and go on to do so. -/
theorem Holds.letters_injectLabel (hh : Holds node p first h) (other : String)
    (hor : other = node ∨ Letters p first h.look h) :
    Letters p first h.look (h.injectLabel other) := by
  rw [Highlighter.injectLabel]
  split
  next hnone =>
    refine hor.resolve_left ?_
    rintro rfl
    rw [hh.label_eq] at hnone
    exact absurd hnone (Option.some_ne_none p)
  next q hq =>
    obtain ⟨u, hu, hq⟩ := Option.bind_eq_some_iff.mp hq
    have hsame := hh.apart_of_target? hu hq
    have hother : other = node → q = p := by
      rintro rfl
      have hp := hh.label_eq
      rw [hu, Option.bind_some, hq] at hp
      exact Option.some.inj hp
    split
    next hnone =>
      refine hor.resolve_left fun heq => ?_
      obtain ⟨shown, x, hshown, hx, -⟩ := hh.shows
      rw [hother heq, hshown, Option.bind_some, hx] at hnone
      exact absurd hnone (Option.some_ne_none x)
    next label _ =>
      have hkept := hh.keepLabel other label
      by_cases hqp : q = p
      · subst hqp
        refine hkept.shows.relabel_self fun x hx => ?_
        rw [← hx.plain_eq]
        exact lettered_inject h.look x
      · have hletters : Letters p first h.look (h.keepLabel other label) :=
          hor.resolve_left fun heq => hqp (hother heq)
        exact ShowsAt.relabel_of_apart hletters (fun h => hqp (hsame (Or.inl h)))
          (fun h => hqp (hsame (Or.inr h)))

/-- Highlighting any node keeps the label. -/
theorem Holds.showNode (hh : Holds node p first h) (other : String) :
    Holds node p first (h.showNode other) := by
  rw [Highlighter.showNode]
  split
  · exact hh
  · dsimp only
    split_ifs
    · exact hh.repaint (repaints_paint h.theme) _
    · exact (hh.repaint (repaints_paint h.theme) _).injectLabel other

/-- Highlighting a node gives its label values, and leaves those of other labels. -/
theorem Holds.letters_showNode (hh : Holds node p first h) (hne : h.bindings ≠ [])
    (other : String) (hor : other = node ∨ Letters p first h.look h) :
    Letters p first h.look (h.showNode other) := by
  have hempty : h.bindings.isEmpty = false := by simpa using hne
  rw [Highlighter.showNode]
  split
  next hnone =>
    refine hor.resolve_left ?_
    rintro rfl
    have hlabel := hh.label_eq
    rw [hnone] at hlabel
    exact absurd hlabel.symm (Option.some_ne_none p)
  next u _ =>
    have hpainted := hh.repaint (repaints_paint h.theme) u.place
    have hlook := (sameView_modify h u.place (mapAll (paint h.theme))).look_eq
    have hletters := hpainted.letters_injectLabel other
    rw [hlook] at hletters
    have hbindings := congrArg Look.bindings hlook
    dsimp only [look] at hbindings ⊢
    rw [hbindings, hempty, if_neg Bool.noConfusion]
    exact hletters (hor.imp id fun hl => hl.repaint (repaints_paint h.theme) u.place)

/-- Highlighting nodes gives the label values if its node is among them. -/
theorem Holds.letters_foldl_showNode (hh : Holds node p first h) (hne : h.bindings ≠ [])
    (nodes : List String) (hor : node ∈ nodes ∨ Letters p first h.look h) :
    Letters p first h.look (nodes.foldl Highlighter.showNode h) := by
  induction nodes generalizing h with
  | nil => exact hor.resolve_left List.not_mem_nil
  | cons other nodes ih =>
      have hlook := (sameView_showNode h other).look_eq
      have hbindings : (h.showNode other).bindings = h.bindings := congrArg Look.bindings hlook
      have hrest := ih (hh.showNode other) (hbindings ▸ hne)
      rw [hlook] at hrest
      refine hrest ?_
      rw [List.mem_cons] at hor
      rcases hor with (rfl | hmem) | hletters
      · exact Or.inr (hh.letters_showNode hne node (Or.inl rfl))
      · exact Or.inl hmem
      · exact Or.inr (hh.letters_showNode hne other (Or.inr hletters))

/-- Showing the current step keeps the label. -/
theorem Holds.apply (hh : Holds node p first h) : Holds node p first h.apply := by
  rw [Highlighter.apply]
  dsimp only
  split
  · exact hh.clear
  · exact (hh.clear.foldl (fun other hh => hh.showNode other) _).of_eq rfl rfl

/-- A label whose node is highlighted shows its text with the values. -/
theorem Holds.letters_apply (hh : Holds node p first h) (hne : h.bindings ≠ [])
    (hmem : node ∈ h.apply.highlighted) :
    Letters p first h.look h.apply := by
  have hlook : h.clear.look = h.look := (sameView_clear h).look_eq
  have hbindings : h.clear.bindings = h.bindings := congrArg Look.bindings hlook
  have hhighlighted : h.clear.highlighted = [] := rfl
  rw [Highlighter.apply] at hmem ⊢
  dsimp only at hmem ⊢
  split
  next hnone =>
    rw [hnone] at hmem
    simp only [hhighlighted] at hmem
    exact absurd hmem List.not_mem_nil
  next line hline =>
    rw [hline] at hmem
    have hletters := hh.clear.letters_foldl_showNode (hbindings ▸ hne) (h.clear.nodesOn line)
      (Or.inl hmem)
    rw [hlook] at hletters
    exact hletters

/-- An event keeps the label. -/
theorem Holds.handle (hh : Holds node p first h) (hready : h.isReady = true) (e : Event) :
    Holds node p first (h.handle e) := by
  by_cases he : e = .cleared
  · subst he
    exact hh.clear
  · obtain ⟨told, drawn, hsame, -, hdrawn, hpicture, -⟩ := exists_told hready he
    have htold := hh.of_eq hsame.drawing_eq hsame.targets_eq
    refine Holds.of_eq ?_ hpicture.drawing_eq hpicture.targets_eq
    rw [hdrawn]
    split_ifs
    · exact htold.apply
    · exact htold

/-- Whatever happens, the label stays. -/
theorem Holds.after (hh : Holds node p first h) (hready : h.isReady = true) (events : List Event) :
    Holds node p first (h.after events) := by
  induction events generalizing h with
  | nil => exact hh
  | cons e events ih => exact ih (hh.handle hready e) (view_handle hready e).2

/-- A step with variables gives a label whose node is highlighted its plain text with the values. -/
theorem Holds.exists_lettered (hh : Holds node p first h) (hready : h.isReady = true) (line : Int)
    {bindings : List Binding} (hne : bindings ≠ [])
    (hmem : node ∈ (h.showStep line bindings).highlighted) :
    ∃ shown x, (h.showStep line bindings).drawing = some shown ∧ shown.at? p = some x ∧
      x.tag = first.tag ∧ Lettered (h.showStep line bindings).look (plainText first) x := by
  let told : Highlighter := { h with current := some line, bindings := bindings }
  have htold : Holds node p first told := hh.of_eq rfl rfl
  have hshow : h.showStep line bindings =
      if told.apply.isCentered then told.apply.scroll else told.apply := by
    rw [showStep, if_pos hready]
  -- where the highlighter scrolls to makes no difference
  obtain ⟨hpicture, hview⟩ : SamePicture told.apply (h.showStep line bindings) ∧
      (h.showStep line bindings).view = told.apply.view := by
    rw [hshow]
    split_ifs
    · exact samePicture_scroll told.apply
    · exact ⟨SamePicture.refl told.apply, rfl⟩
  have hlook : (h.showStep line bindings).look = told.look :=
    congrArg Prod.snd (hview.trans (view_apply told).1)
  rw [hpicture.highlighted_eq] at hmem
  obtain ⟨shown, x, hshown, hx, hsame, hlettered⟩ :=
    htold.apply.shows.and (htold.letters_apply hne hmem)
  rw [hpicture.drawing_eq, hlook]
  exact ⟨shown, x, hshown, hx, hsame.tag_eq, hlettered⟩

end Holds

/-- The label of a node in a new drawing. -/
theorem holds_graphReady {g : Graph} {d : Element} (h : Highlighter) {t : Target}
    (ht : t ∈ targetsIn g d) {p : Path} (hp : t.label = some p) {first : Element}
    (hfirst : d.at? p = some first)
    (hapart : ∀ u ∈ targetsIn g d, ∀ q ∈ u.label, q <+: p ∨ p <+: q → q = p) :
    Holds t.node p first (h.graphReady d g) := by
  have hfound : (h.withDrawing d g).target? t.node = some t := by
    obtain ⟨u, hu⟩ : ∃ u, (h.withDrawing d g).target? t.node = some u := by
      rw [← Option.isSome_iff_exists, target?, List.find?_isSome]
      exact ⟨t, ht, beq_self_eq_true t.node⟩
    rw [hu, eq_of_node_eq (List.mem_of_find?_eq_some hu) ht (by simpa using List.find?_some hu)]
  have hstart : Holds t.node p first (h.withDrawing d g) :=
    ⟨⟨d, first, rfl, hfirst, rfl, rfl⟩, hapart, by rw [hfound, Option.bind_some, hp]⟩
  rw [graphReady_eq]
  split_ifs
  · exact hstart.apply
  · exact hstart

/-- Events change no inputs. -/
theorem inputs_after {h : Highlighter} (hready : h.isReady = true) (events : List Event) :
    (h.after events).inputs = h.inputs := by
  have htell : ∀ view : View, (events.foldl (fun view e => e.tell view) view).2.inputs =
      view.2.inputs := by
    induction events with
    | nil => exact fun _ => rfl
    | cons e events ih =>
        intro view
        rw [List.foldl_cons, ih]
        cases e <;> rfl
  have hview := congrArg (·.2.inputs) (view_after hready events).1
  exact hview.trans (htell h.view)

/-- After any events a step with variables letters the label of a node that it highlights. -/
theorem Holds.lettered_after {h₀ : Highlighter} {g : Graph} {d : Element} {node : String} {p : Path}
    {first : Element} (hh : Holds node p first (h₀.graphReady d g)) (events : List Event)
    (line : Int) {bindings : List Binding} (hne : bindings ≠ []) :
    let h := ((h₀.graphReady d g).after events).showStep line bindings
    node ∈ h.highlighted → ∃ shown label, h.drawing = some shown ∧ shown.at? p = some label ∧
      label.tag = first.tag ∧ Lettered ⟨h.theme, h₀.inputs, bindings⟩ (plainText first) label := by
  intro h hmem
  obtain ⟨hview, hready⟩ := view_graphReady h₀ d g
  have hready' := (view_after hready events).2
  have hlook : h.look = ⟨h.theme, h₀.inputs, bindings⟩ := by
    have htold := (view_handle hready' (.stepShown line bindings)).1
    have hinputs : h.inputs = h₀.inputs :=
      calc h.inputs = ((h₀.graphReady d g).after events).inputs := congrArg (·.2.inputs) htold
        _ = (h₀.graphReady d g).inputs := inputs_after hready events
        _ = h₀.inputs := congrArg (·.2.inputs) hview
    have hbindings : h.bindings = bindings := congrArg (·.2.bindings) htold
    rw [look, hinputs, hbindings]
  rw [← hlook]
  exact (hh.after hready events).exists_lettered hready' line hne hmem

end Highlighter

open Highlighter

/-- Whatever a highlighter was told since it got its drawing, a step with variables gives a label whose
node it highlights the first text with the values of these variables, and the note below it. No label
of another node may stand in this label or around it. -/
theorem lettered_showStep (h₀ : Highlighter) (g : Graph) (d : Element) (events : List Event)
    (line : Int) {bindings : List Binding} (hne : bindings ≠ []) {t : Target}
    (ht : t ∈ targetsIn g d) {p : Path} (hp : t.label = some p) {first : Element}
    (hfirst : d.at? p = some first)
    (hapart : ∀ u ∈ targetsIn g d, ∀ q ∈ u.label, q <+: p ∨ p <+: q → q = p) :
    let h := ((h₀.graphReady d g).after events).showStep line bindings
    t.node ∈ h.highlighted → ∃ shown label, h.drawing = some shown ∧ shown.at? p = some label ∧
      label.tag = first.tag ∧ Lettered ⟨h.theme, h₀.inputs, bindings⟩ (plainText first) label := by
  exact (holds_graphReady h₀ ht hp hfirst hapart).lettered_after events line hne

/-- The label `x = y` of the first of two nodes, after several steps. -/
theorem lettered_showStep_twoNodes :
    let h := ((({ inputs := ["x"] } : Highlighter).graphReady twoNodesDrawn twoNodes).after
      twoSteps).showStep 2 [("x", "2")]
    "L2_2" ∈ h.highlighted ∧ ∃ shown label, h.drawing = some shown ∧
      shown.at? [1, 1] = some label ∧ label.tag = some "text" ∧
      Lettered ⟨h.theme, ["x"], [("x", "2")]⟩ "print(x)" label := by
  obtain ⟨t, ht, hnode, hlabel⟩ : ∃ t ∈ targetsIn twoNodes twoNodesDrawn,
      t.node = "L2_2" ∧ t.label = some [1, 1] := by decide +kernel
  obtain ⟨first, hfirst, htag, htext⟩ : ∃ first, twoNodesDrawn.at? [1, 1] = some first ∧
      first.tag = some "text" ∧ plainText first = "print(x)" :=
    ⟨_, rfl, rfl, by decide +kernel⟩
  have hapart : ∀ u ∈ targetsIn twoNodes twoNodesDrawn, ∀ q ∈ u.label,
      q <+: [1, 1] ∨ [1, 1] <+: q → q = [1, 1] := by decide +kernel
  have hletters := lettered_showStep { inputs := ["x"] } twoNodes twoNodesDrawn twoSteps 2
    (List.cons_ne_nil ("x", "2") []) ht hlabel hfirst hapart
  rw [hnode, htag, htext] at hletters
  have hmem : "L2_2" ∈ (((({ inputs := ["x"] } : Highlighter).graphReady twoNodesDrawn
      twoNodes).after twoSteps).showStep 2 [("x", "2")]).highlighted := by decide +kernel
  exact ⟨hmem, hletters hmem⟩

/-- Two statements of one line, the second of which is drawn around the first. -/
def nestedNodes : Graph where
  nodes := [⟨"L1_1", .process, "x", some 1, none, "x"⟩,
    ⟨"L1_2", .process, "a x", some 1, none, "a x"⟩]

/-- A drawing of them in which one label stands in the other. -/
def nestedDrawn : Element :=
  ⟨some "svg", [], none, none, [
    ⟨some "g", [("id", "flowchart-L1_2-0"), ("class", "node")], none, none, [
      ⟨some "text", [], some "a ", none, [
        ⟨some "g", [("id", "flowchart-L1_1-1"), ("class", "node")], none, none, [
          ⟨some "text", [], some "x", none, []⟩]⟩]⟩]⟩]⟩

/-- A variable without a name is not listed, although it is an input; and a label in which another label
got values first has these in its text. -/
theorem showStep_unlettered :
    let unnamed := (({ inputs := [""] } : Highlighter).graphReady twoNodesDrawn twoNodes).showStep 2
      [("", "5")]
    let nested := (({} : Highlighter).graphReady nestedDrawn nestedNodes).showStep 1 [("x", "7")]
    ("L2_2" ∈ unnamed.highlighted ∧
      (∃ t ∈ targetsIn twoNodes twoNodesDrawn, t.node = "L2_2" ∧ t.label = some [1, 1]) ∧
      "" ∈ unnamed.inputs ∧
      (unnamed.drawing.bind (·.at? [1, 1])).map (·.children.isEmpty) = some true) ∧
    ("L1_2" ∈ nested.highlighted ∧
      (∃ t ∈ targetsIn nestedNodes nestedDrawn, t.node = "L1_2" ∧ t.label = some [0, 0]) ∧
      (nestedDrawn.at? [0, 0]).map plainText = some "a x" ∧
      ∃ label, nested.drawing.bind (·.at? [0, 0]) = some label ∧
        ¬ Lettered nested.look "a x" label) := by
  intro unnamed nested
  have hnested : (nested.drawing.bind (·.at? [0, 0])).map (fun x => (x.text, x.children.length)) =
      some (some "a 7", 0) := by decide +kernel
  obtain ⟨label, hlabel, heq⟩ := Option.map_eq_some_iff.mp hnested
  obtain ⟨htext, hleaf⟩ := Prod.mk.inj heq
  refine ⟨⟨by decide +kernel, by decide +kernel, by decide +kernel, by decide +kernel⟩,
    by decide +kernel, by decide +kernel, by decide +kernel, label, hlabel, fun hlettered => ?_⟩
  have hsame := hlettered.text_eq (List.length_eq_zero_iff.mp hleaf)
  rw [htext] at hsame
  exact absurd hsame (by decide)

end Flowchart
