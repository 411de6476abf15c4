import Flowchart.Proofs.Highlight.History

/-!
# A drawing that is announced again

A highlighter that gets its own drawing again looks for the nodes anew and forgets the snapshots of
their labels. As long as every label stands there as it was first, or with its text kept in it
(`SameLabels`), that is harmless: the nodes are found where they were (`Dressed.targetsIn_eq`), and
from then on the highlighter goes in step with one that got no new drawing (`Forgets`). What it has
instead of a snapshot is another one of the same label, or none where the label is already what it
would be restored to (`Recalls`).

So whatever it is told later, clearing gives all labels back as they were first
(`labels_announced_again`). A label that has values while the drawing is announced keeps them
(`values_announced_again`).

## Two highlighters side by side

The highlighter that is told of its drawing again and the one that is not differ in their snapshots
alone. `Forgets` relates them: the drawing and the targets are the same but for the snapshots, and what
the one recalls of a label restores what the snapshot of the other does. Each operation of a highlighter
keeps this relation, so each event does (`Forgets.handle`) and each list of events (`Forgets.after`).
That clearing gives all labels back then comes from what is known of a highlighter that was told once.

## Main results

* `Forgets.handle`, `Forgets.after`: the two highlighters go in step at every event.
* `labels_announced_again`: after an announcement with no values in the labels, clearing gives all
  labels back.
* `values_announced_again`: with values in a label it does not.
-/

namespace Flowchart

open Element

/-! ### Labels as they were first -/

/-- Each label of a node stands in the drawing `shown` as it does in `d`, or with its text kept in
it. -/
def SameLabels (g : Graph) (d shown : Element) : Prop :=
  ∀ t ∈ targetsIn g d, ∀ p ∈ t.label, ∀ first, d.at? p = some first →
    shown.at? p = some first ∨ shown.at? p = some (keepText first)

/-- An element without its style and without what is kept in it. -/
def strip (e : Element) : Element := ((e.dropAttr "style").dropAttr styleKept).dropAttr textKept

/-- Stripping an element keeps labels where they are. -/
theorem keepsLabels_strip : KeepsLabels strip where
  shallow := fun _ _ => rfl
  tag_eq := fun _ => rfl
  class_eq := fun e => by
    rw [strip, attr?_dropAttr_of_ne (by decide), attr?_dropAttr_of_ne (by decide),
      attr?_dropAttr_of_ne (by decide)]

/-- Stripping an element keeps its id. -/
theorem attr?_id_strip (e : Element) : (strip e).attr? "id" = e.attr? "id" := by
  rw [strip, attr?_dropAttr_of_ne (by decide), attr?_dropAttr_of_ne (by decide),
    attr?_dropAttr_of_ne (by decide)]

/-- What stripping drops may be set before it. -/
theorem strip_setAttr {key : String} (hkey : key = "style" ∨ key = styleKept ∨ key = textKept)
    (e : Element) (value : String) : strip (e.setAttr key value) = strip e := by
  have hstyle : styleKept ≠ "style" := by decide
  have htext : textKept ≠ "style" := by decide
  have hkept : textKept ≠ styleKept := by decide
  rw [strip, strip]
  rcases hkey with rfl | rfl | rfl
  · rw [dropAttr_setAttr_self]
  · rw [dropAttr_setAttr_of_ne hstyle, dropAttr_setAttr_self]
  · rw [dropAttr_setAttr_of_ne htext, dropAttr_setAttr_of_ne hkept, dropAttr_setAttr_self]

/-- A painted element is stripped of its paint. -/
theorem strip_paint (theme : Theme) (e : Element) : strip (paint theme e) = strip e := by
  rw [paint]
  split_ifs
  · exact strip_setAttr (Or.inl rfl) _ _
  · exact (strip_setAttr (Or.inl rfl) _ _).trans (strip_setAttr (Or.inr (Or.inl rfl)) _ _)
  · rfl

/-- An empty style is stripped with the others. -/
theorem strip_shed (e : Element) : strip (shed e) = strip e := by
  rw [shed]
  split_ifs
  · rw [strip, dropAttr_dropAttr, strip]
  · rfl

/-- A label that keeps its text is stripped of it. -/
theorem mapAll_strip_keepText (label : Element) :
    mapAll strip (keepText label) = mapAll strip label := by
  rw [mapAll_eq, mapAll_eq strip label]
  exact strip_setAttr (Or.inr (Or.inr rfl))
    { label with children := label.children.map (mapAll strip) } _

section Dressed

variable {g : Graph} {d shown first e : Element} {look : Option Look} {snapshot : Option Element}
  {looks : String → Option Look} {snap : String → Option Element}

/-- The label of what wears a look. -/
theorem Wears.at?_label_eq (hw : Wears first look snapshot e) (h : Untouched first) {l : Path}
    (hl : first.label? = some l) {label : Element} (hlabel : first.at? l = some label) :
    e.at? l = some (letter look snapshot.isSome label) := by
  have hat := hw.at?_label h hl hlabel changesShapes_id
  rwa [mapAll_id] at hat

/-- An element whose label is as it was first differs from what it was in styles and in what is kept
only. -/
theorem Wears.strip_eq (hw : Wears first look snapshot e) (h : Untouched first)
    (hsame : ∀ l ∈ first.label?, ∀ label, first.at? l = some label →
      e.at? l = some label ∨ e.at? l = some (keepText label)) :
    mapAll strip e = mapAll strip first := by
  obtain ⟨base, hbase, heq⟩ := hw.eq
  have hpaint := (changesShapes_dye look).comp (changesShapes_base hbase)
  have hshapes : mapAll strip (mapAll (dye look ∘ base) first) = mapAll strip first := by
    rw [mapAll_mapAll keepsLabels_strip.shallow hpaint.shallow]
    refine mapAll_congr (keepsLabels_strip.shallow.comp hpaint.shallow) keepsLabels_strip.shallow
      fun p x _ => ?_
    have hdye : strip (dye look (base x)) = strip (base x) := by
      cases look with
      | none => rfl
      | some k => exact strip_paint k.theme (base x)
    refine hdye.trans ?_
    rcases hbase with rfl | rfl
    · rfl
    · exact strip_shed x
  cases hl : first.label? with
  | none => rw [heq, hl, modifyLabel_none, hshapes]
  | some l =>
      obtain ⟨label, hlabel⟩ := exists_at?_of_label? hl
      have hletter : mapAll strip (letter look snapshot.isSome label) = mapAll strip label := by
        have hat := hw.at?_label_eq h hl hlabel
        rcases hsame l hl label hlabel with hfirst | hkept
        · rw [Option.some.inj (hat.symm.trans hfirst)]
        · rw [Option.some.inj (hat.symm.trans hkept), mapAll_strip_keepText]
      rw [heq, hl, modifyLabel_some, mapAll_modifyAt (g := id) keepsLabels_strip.shallow, hshapes]
      · exact modifyAt_eq_self fun _ _ => rfl
      · intro x hx
        rw [h.at?_label hl hlabel hpaint] at hx
        rw [← Option.some.inj hx, hletter]
        rfl

/-- A drawing whose labels are as they were first differs from what it was in styles and in what is
kept only. -/
theorem Dressed.strip_eq (h : Dressed g d looks snap shown) (hclean : Clean g d)
    (hsame : SameLabels g d shown) : mapAll strip shown = mapAll strip d := by
  have hshallow := keepsLabels_strip.shallow
  refine eq_of_heads fun q => ?_
  by_cases hq : ∃ t ∈ targetsIn g d, ∃ p ∈ t.place, p <+: q
  · obtain ⟨t, ht, p, hp, r, rfl⟩ := hq
    obtain ⟨first, e, hfirst, he, hlabel, huntouched, hw⟩ := h.exists_wears hclean ht hp
    have hstrip : mapAll strip e = mapAll strip first := by
      refine hw.strip_eq huntouched fun l hl label hat => ?_
      have hpath : t.label = some (p ++ l) := by rw [hlabel, hl, Option.map_some]
      have hd : d.at? (p ++ l) = some label := by rw [at?_append, hfirst]; exact hat
      have hshown := hsame t ht (p ++ l) hpath label hd
      rwa [at?_append, he] at hshown
    rw [at?_append, at?_append, at?_mapAll hshallow, at?_mapAll hshallow, he, hfirst,
      Option.map_some, Option.map_some, hstrip]
  · rw [map_head_at?_mapAll hshallow, map_head_at?_mapAll hshallow,
      h.elsewhere q fun t ht p hp hpq => hq ⟨t, ht, p, hp, hpq⟩]

/-- In a drawing whose labels are as they were first the nodes are found where they were. -/
theorem Dressed.targetsIn_eq (h : Dressed g d looks snap shown) (hclean : Clean g d)
    (hsame : SameLabels g d shown) : targetsIn g shown = targetsIn g d := by
  rw [← targetsIn_mapAll keepsLabels_strip attr?_id_strip g shown, h.strip_eq hclean hsame,
    targetsIn_mapAll keepsLabels_strip attr?_id_strip]

/-- Without values the labels are as they were first. -/
theorem Dressed.sameLabels (h : Dressed g d looks snap shown) (hclean : Clean g d)
    (hplain : ∀ t ∈ targetsIn g d, ∀ k ∈ looks t.node, k.isLettered = false) :
    SameLabels g d shown := by
  intro t ht path hpath label hlabel
  obtain ⟨p, -, -, hp, -⟩ := exists_first_of_mem_targetsIn ht
  obtain ⟨first, e, hfirst, he, hlabels, huntouched, hw⟩ := h.exists_wears hclean ht hp
  obtain ⟨l, hl, rfl⟩ := Option.map_eq_some_iff.mp (hlabels.symm.trans hpath)
  rw [at?_append, hfirst] at hlabel
  rw [at?_append, he]
  have hat := hw.at?_label_eq huntouched hl hlabel
  rw [letter_of_no_values (hplain t ht)] at hat
  cases hs : (snap t.node).isSome <;> rw [hs] at hat
  · exact Or.inl hat
  · exact Or.inr hat

end Dressed

/-! ### Snapshots that are taken again -/

/-- What a highlighter that forgot the snapshot of a label has instead, while the label is `now`: the
same, a snapshot of the label with its text kept, or none if there is nothing to restore. -/
inductive Recalls (now : Option Element) : (later first : Option Element) → Prop
  | same (snapshot : Option Element) : Recalls now snapshot snapshot
  | retaken (s : Element) : Recalls now (some (keepText s)) (some s)
  | missing {s : Element} : now = some (keepText s) → Recalls now none (some s)

/-- Where a label is restored there is nothing to restore any more. -/
theorem Recalls.of_restored {now now' later first : Option Element} (h : Recalls now later first)
    (hnow : ∀ s, first = some s → now' = some (keepText s)) : Recalls now' later first := by
  cases h with
  | same => exact .same _
  | retaken s => exact .retaken s
  | missing _ => exact .missing (hnow _ rfl)

/-- A snapshot that is taken again is one of the label with its text kept. -/
theorem Recalls.or_now {now now' later first : Option Element} (h : Recalls now later first) :
    Recalls now' (later.or now) (first.or now) := by
  cases h with
  | same => exact .same _
  | retaken s => exact .retaken s
  | @missing s hnow =>
      rw [hnow]
      exact .retaken s

/-- A label is restored from a snapshot whether that keeps its text or not. -/
theorem restore_keepText (s label : Element) : restore (keepText s) label = restore s label := by
  have hattrs : (keepText s).attrs = put s.attrs textKept s.content := rfl
  simp only [restore, hattrs, put_put]
  rfl

namespace Highlighter

/-- The highlighter with other targets. -/
def retarget (h : Highlighter) (targets : List Target) : Highlighter := { h with targets := targets }

/-- The highlighter `h'` is `h` but for the snapshots, and has others for them. -/
def Forgets (g : Graph) (d : Element) (h h' : Highlighter) : Prop :=
  ∃ snap snap' shown, h.drawing = some shown ∧
    h.targets = (targetsIn g d).map (Target.withSnapshot snap) ∧
    h' = h.retarget ((targetsIn g d).map (Target.withSnapshot snap')) ∧
    ∀ t ∈ targetsIn g d, ∀ path ∈ t.label,
      Recalls (shown.at? path) (snap' t.node) (snap t.node)

variable {g : Graph} {d shown : Element} {h h' : Highlighter} {snap : String → Option Element}
  {looks : String → Option Look}

/-- The two highlighters show the same drawing and differ in their snapshots alone. -/
theorem Forgets.exists_dressed (hf : Forgets g d h h') (hd : Displays g d looks h) :
    ∃ snap snap' shown, h.drawing = some shown ∧
      h.targets = (targetsIn g d).map (Target.withSnapshot snap) ∧
      h' = h.retarget ((targetsIn g d).map (Target.withSnapshot snap')) ∧
      (∀ t ∈ targetsIn g d, ∀ path ∈ t.label,
        Recalls (shown.at? path) (snap' t.node) (snap t.node)) ∧ Dressed g d looks snap shown := by
  obtain ⟨snap, snap', shown, hdrawing, htargets, heq, hrecalls⟩ := hf
  obtain ⟨-, snap₀, shown₀, hdrawing₀, htargets₀, hdressed⟩ := hd
  obtain rfl := Option.some.inj (hdrawing.symm.trans hdrawing₀)
  refine ⟨snap₀, snap', shown, hdrawing, htargets₀, heq, fun t ht path hpath => ?_, hdressed⟩
  have hsnap : t.withSnapshot snap = t.withSnapshot snap₀ :=
    List.map_inj_left.mp (htargets.symm.trans htargets₀) t ht
  have hsnap : snap t.node = snap₀ t.node := congrArg Target.snapshot hsnap
  exact hsnap ▸ hrecalls t ht path hpath

/-- Without a label there is nothing to restore. -/
theorem restoreLabel_of_no_label
    (htargets : h.targets = (targetsIn g d).map (Target.withSnapshot snap)) {t : Target}
    (ht : t ∈ targetsIn g d) (hlabel : t.label = none) : h.restoreLabel t.node = h := by
  have hnone : (t.withSnapshot snap).label = none := hlabel
  rw [restoreLabel, target?_of_mem htargets ht]
  simp only [hnone]
  split <;> first | rfl | contradiction

/-- Undoing a node does the same without its first snapshot. -/
theorem clearNode_of_recalls (hclean : Clean g d) (hdrawing : h.drawing = some shown)
    (htargets : h.targets = (targetsIn g d).map (Target.withSnapshot snap)) {t : Target}
    (ht : t ∈ targetsIn g d) {p : Path} (hp : t.place = some p) {first e : Element}
    (huntouched : Untouched first) (hlabel : t.label = first.label?.map (p ++ ·))
    (he : shown.at? p = some e) {look : Option Look} {snapshot : Option Element}
    (hw : Wears first look snapshot e)
    (hrecalls : ∀ path ∈ t.label, Recalls (shown.at? path) (snap t.node) snapshot) :
    h.clearNode t.node = h.redraw (shown.modifyAt p (undone first.label? snapshot)) := by
  cases hl : first.label? with
  | none =>
      have hnone : snapshot = none := by
        rw [Option.eq_none_iff_forall_ne_some]
        rintro s rfl
        obtain ⟨l, hl', -⟩ := hw.snapshot_eq s rfl
        exact absurd (hl.symm.trans hl') (Option.some_ne_none l).symm
      rw [clearNode_eq_restoreLabel hdrawing htargets ht hp, hnone]
      exact restoreLabel_of_no_label (h := h.redraw _) htargets ht (by rw [hlabel, hl]; rfl)
  | some l =>
      have hpath : t.label = some (p ++ l) := by rw [hlabel, hl, Option.map_some]
      obtain ⟨label, hat⟩ := exists_at?_of_label? hl
      have hpainted := hw.at?_label huntouched hl hat changesShapes_unpaint
      have hfound : (shown.modifyAt p (mapAll unpaint)).at? (p ++ l) =
          some (letter look snapshot.isSome label) := by
        rw [at?_modifyAt_append, he]
        exact hpainted
      have htargets' : (h.redraw (shown.modifyAt p (mapAll unpaint))).targets =
          (targetsIn g d).map (Target.withSnapshot snap) := htargets
      have hrecalls := hrecalls (p ++ l) hpath
      generalize hs : snap t.node = recalled at hrecalls
      cases hrecalls with
      | same =>
          rw [← hs] at hw ⊢
          rw [← hl]
          exact clearNode_eq hclean hdrawing htargets ht hp huntouched hlabel he hw
      | retaken s =>
          have hkept : ((letter look true label).attr? textKept).isSome = true := by
            rw [(keeps_letter look (huntouched.attr?_textKept_label hat)).attr?_textKept]
            rfl
          rw [clearNode_eq_restoreLabel hdrawing htargets ht hp,
            restoreLabel_of_some hclean rfl htargets' ht hpath hs hfound hkept, modifyAt_append,
            modifyAt_modifyAt, funext (restore_keepText s)]
          rfl
      | @missing s hnow =>
          rw [clearNode_eq_restoreLabel hdrawing htargets ht hp, restoreLabel_of_none htargets' ht hs]
          refine congrArg h.redraw (modifyAt_congr fun x hx => ?_)
          obtain rfl := Option.some.inj (he.symm.trans hx)
          rw [at?_append, he, Option.bind_some, hw.at?_label_eq huntouched hl hat] at hnow
          -- the label is already what it would be restored to
          refine (modifyAt_eq_self fun y hy => ?_).symm
          rw [hpainted, hnow] at hy
          rw [← Option.some.inj hy]
          exact (keeps_keepText s).restore_eq

/-- A change of the element of one node leaves the labels of others as they are. -/
theorem at?_label_modifyAt (hclean : Clean g d) {t u : Target} (ht : t ∈ targetsIn g d)
    (hu : u ∈ targetsIn g d) (hne : u ≠ t) {p path : Path} (hp : t.place = some p)
    (hpath : u.label = some path) (f : Element → Element) :
    (shown.modifyAt p f).at? path = shown.at? path := by
  obtain ⟨q, first, -, hq, hlabel, -⟩ := exists_first_of_mem_targetsIn hu
  obtain ⟨l, -, rfl⟩ := Option.map_eq_some_iff.mp (hlabel.symm.trans hpath)
  refine at?_modifyAt_of_apart shown f (fun hle => ?_) (fun hle => ?_)
  · rcases List.prefix_or_prefix_of_prefix hle (List.prefix_append q l) with hpq | hqp
    · exact hne (hclean.eq_of_prefix ht hu hp hq hpq).symm
    · exact hne (hclean.eq_of_prefix hu ht hq hp hqp)
  · exact hne (hclean.eq_of_prefix hu ht hq hp ((List.prefix_append q l).trans hle))

/-- A node that was not found has no target in either. -/
theorem Forgets.target?_eq_none (hf : Forgets g d h h') {node : String}
    (hnode : ∀ t ∈ targetsIn g d, t.node ≠ node) :
    h.target? node = none ∧ h'.target? node = none := by
  obtain ⟨snap, snap', shown, -, htargets, rfl, -⟩ := hf
  have hnone : (targetsIn g d).find? (·.node == node) = none :=
    List.find?_eq_none.mpr fun t ht heq => hnode t ht (beq_iff_eq.mp heq)
  rw [target?_eq htargets, target?_eq (h := h.retarget _) rfl, hnone]
  exact ⟨rfl, rfl⟩

/-- Undoing a node goes in step. -/
theorem Forgets.clearNode (hf : Forgets g d h h') (hd : Displays g d looks h) (hclean : Clean g d)
    (node : String) : Forgets g d (h.clearNode node) (h'.clearNode node) := by
  rcases exists_target_or_forall_ne g d node with ⟨t, ht, rfl⟩ | hnode
  · obtain ⟨snap, snap', shown, hdrawing, htargets, rfl, hrecalls, hdressed⟩ := hf.exists_dressed hd
    obtain ⟨p, -, -, hp, -⟩ := exists_first_of_mem_targetsIn ht
    obtain ⟨first, e, hfirst, he, hlabel, huntouched, hw⟩ := hdressed.exists_wears hclean ht hp
    have hclear := clearNode_of_recalls
      (h := h.retarget ((targetsIn g d).map (Target.withSnapshot snap'))) hclean hdrawing rfl ht hp
      huntouched hlabel he hw (hrecalls t ht)
    rw [clearNode_eq hclean hdrawing htargets ht hp huntouched hlabel he hw, hclear]
    refine ⟨snap, snap', _, rfl, htargets, rfl, fun u hu path hpath => ?_⟩
    have hnow := hrecalls u hu path hpath
    by_cases hut : u = t
    · subst hut
      obtain ⟨l, hl, rfl⟩ := Option.map_eq_some_iff.mp (hlabel.symm.trans hpath)
      refine hnow.of_restored fun s hs => ?_
      rw [at?_modifyAt_append, he, Option.map_some, Option.bind_some]
      have hundone := hw.undone huntouched
      rw [hs] at hundone ⊢
      obtain ⟨l', hl', hat⟩ := hundone.snapshot_eq s rfl
      obtain rfl := Option.some.inj (hl.symm.trans hl')
      rw [hundone.at?_label_eq huntouched hl hat]
      rfl
    · rwa [at?_label_modifyAt hclean ht hu hut hp hpath]
  · obtain ⟨hnone, hnone'⟩ := hf.target?_eq_none hnode
    rw [Highlighter.clearNode, hnone, Highlighter.clearNode, hnone']
    exact hf

/-- Highlighting a node goes in step. -/
theorem Forgets.showNode (hf : Forgets g d h h') (hd : Displays g d looks h) (hclean : Clean g d)
    (node : String) : Forgets g d (h.showNode node) (h'.showNode node) := by
  rcases exists_target_or_forall_ne g d node with ⟨t, ht, rfl⟩ | hnode
  · obtain ⟨snap, snap', shown, hdrawing, htargets, rfl, hrecalls, hdressed⟩ := hf.exists_dressed hd
    obtain ⟨p, -, -, hp, -⟩ := exists_first_of_mem_targetsIn ht
    obtain ⟨first, e, hfirst, he, hlabel, huntouched, hw⟩ := hdressed.exists_wears hclean ht hp
    have hpainted : ∀ l ∈ first.label?, (mapAll (paint h.theme) e).at? l = e.at? l := fun l hl => by
      obtain ⟨label, hat⟩ := exists_at?_of_label? hl
      rw [hw.at?_label huntouched hl hat (changesShapes_paint h.theme),
        hw.at?_label_eq huntouched hl hat]
    have hlabels : ∀ l ∈ first.label?, ∃ label, (mapAll (paint h.theme) e).at? l = some label :=
      fun l hl => by
        obtain ⟨label, hat⟩ := exists_at?_of_label? hl
        exact ⟨_, hw.at?_label huntouched hl hat (changesShapes_paint h.theme)⟩
    obtain ⟨hshown, hsnap⟩ := showNode_eq hclean hdrawing htargets ht hp hlabel he hlabels
    obtain ⟨hshown', hsnap'⟩ := showNode_eq
      (h := h.retarget ((targetsIn g d).map (Target.withSnapshot snap'))) hclean hdrawing rfl ht hp
      hlabel he hlabels
    refine ⟨_, Function.update snap' t.node (if h.look.isLettered
      then (snap' t.node).or (first.label?.bind (mapAll (paint h.theme) e).at?) else snap' t.node),
      _, hshown, hsnap, ?_, fun u hu path hpath => ?_⟩
    · obtain ⟨drawing, targets, hsame⟩ := sameView_showNode h t.node
      obtain ⟨drawing', targets', hsame'⟩ := sameView_showNode
        (h.retarget ((targetsIn g d).map (Target.withSnapshot snap'))) t.node
      rw [hsame] at hshown ⊢
      rw [hsame'] at hshown' hsnap' ⊢
      obtain rfl : drawing = drawing' := hshown.trans hshown'.symm
      obtain rfl : targets' = _ := hsnap'
      rfl
    · have hnow := hrecalls u hu path hpath
      by_cases hut : u = t
      · subst hut
        obtain ⟨l, hl, rfl⟩ := Option.map_eq_some_iff.mp (hlabel.symm.trans hpath)
        rw [at?_append, he, Option.bind_some] at hnow
        rw [Function.update_self, Function.update_self, at?_modifyAt_append, he, Option.map_some,
          Option.bind_some, redone]
        cases h.look.isLettered with
        | true =>
            rw [if_pos rfl, if_pos rfl, hl, Option.bind_some, hpainted l hl]
            exact hnow.or_now
        | false =>
            have hsame : (mapAll (paint h.look.theme) e).at? l = e.at? l := hpainted l hl
            rw [if_neg Bool.noConfusion, if_neg Bool.noConfusion, if_neg Bool.noConfusion, hsame]
            exact hnow
      · have hnode : u.node ≠ t.node := fun heq => hut (eq_of_node_eq hu ht heq)
        rw [Function.update_of_ne hnode, Function.update_of_ne hnode]
        rwa [at?_label_modifyAt hclean ht hu hut hp hpath]
  · obtain ⟨hnone, hnone'⟩ := hf.target?_eq_none hnode
    rw [Highlighter.showNode, hnone, Highlighter.showNode, hnone']
    exact hf

/-! ### Events in step -/

/-- Clearing some nodes keeps them in step. -/
theorem Forgets.foldl_clearNode (hf : Forgets g d h h') (hd : Displays g d looks h)
    (hclean : Clean g d) (nodes : List String) :
    Forgets g d (nodes.foldl Highlighter.clearNode h) (nodes.foldl Highlighter.clearNode h') := by
  induction nodes generalizing h h' looks with
  | nil => exact hf
  | cons node nodes ih => exact ih (hf.clearNode hd hclean node) (hd.clearNode hclean node)

/-- Highlighting some nodes keeps them in step. -/
theorem Forgets.foldl_showNode (hf : Forgets g d h h') (hd : Displays g d looks h)
    (hclean : Clean g d) (nodes : List String)
    (hlooks : ∀ node, looks node = none ∨ looks node = some h.look) :
    Forgets g d (nodes.foldl Highlighter.showNode h) (nodes.foldl Highlighter.showNode h') := by
  induction nodes generalizing h h' looks with
  | nil => exact hf
  | cons node nodes ih =>
      exact ih (hf.showNode hd hclean node) (hd.showNode hclean (hlooks node))
        (Displays.eq_none_or_look_showNode hlooks node)

/-- Clearing goes in step. -/
theorem Forgets.clear (hf : Forgets g d h h') (hd : Displays g d looks h) (hclean : Clean g d) :
    Forgets g d h.clear h'.clear := by
  have hnodes : h'.targets.map (·.node) = h.targets.map (·.node) := by
    obtain ⟨snap, snap', shown, -, htargets, rfl, -⟩ := hf
    rw [htargets, List.map_map]
    exact List.map_map
  obtain ⟨snap, snap', shown, hdrawing, htargets, heq, hrecalls⟩ :=
    hf.foldl_clearNode hd hclean (h.targets.map (·.node))
  rw [Highlighter.clear, Highlighter.clear, hnodes, heq]
  exact ⟨snap, snap', shown, hdrawing, htargets, rfl, hrecalls⟩

/-- Both know the same nodes on a line. -/
theorem Forgets.nodesOn_eq (hf : Forgets g d h h') (line : Int) :
    h'.nodesOn line = h.nodesOn line := by
  obtain ⟨snap, snap', shown, -, htargets, rfl, -⟩ := hf
  refine List.filter_congr fun node _ => ?_
  rw [target?_eq (h := h.retarget _) rfl, target?_eq htargets, Option.isSome_map, Option.isSome_map]

/-- Showing the current step goes in step. -/
theorem Forgets.apply (hf : Forgets g d h h') (hd : Displays g d looks h) (hclean : Clean g d) :
    Forgets g d h.apply h'.apply := by
  have hcleared := hf.clear hd hclean
  have hcurrent : h'.clear.current = h.clear.current := by
    obtain ⟨snap, snap', shown, -, -, heq, -⟩ := hcleared
    rw [heq]
    rfl
  rw [Highlighter.apply, Highlighter.apply]
  simp only [hcurrent]
  cases h.clear.current with
  | none => exact hcleared
  | some line =>
      obtain ⟨snap, snap', shown, hdrawing, htargets, heq, hrecalls⟩ :=
        hcleared.foldl_showNode (hd.clear hclean) hclean (h.clear.nodesOn line) fun _ => Or.inl rfl
      simp only [hcleared.nodesOn_eq, heq]
      exact ⟨snap, snap', shown, hdrawing, htargets, rfl, hrecalls⟩

/-- Both scroll to the same element. -/
theorem Forgets.scroll (hf : Forgets g d h h') : Forgets g d h.scroll h'.scroll := by
  obtain ⟨snap, snap', shown, hdrawing, htargets, rfl, hrecalls⟩ := hf
  have hids : ∀ node, ((h.retarget ((targetsIn g d).map (Target.withSnapshot snap'))).target?
      node).map (·.elementId) = (h.target? node).map (·.elementId) := fun node => by
    rw [target?_eq (h := h.retarget _) rfl, target?_eq htargets, Option.map_map, Option.map_map]
    rfl
  have hhighlighted : (h.retarget ((targetsIn g d).map (Target.withSnapshot snap'))).highlighted =
      h.highlighted := rfl
  rw [Highlighter.scroll, Highlighter.scroll, hhighlighted]
  cases h.highlighted with
  | nil => exact ⟨snap, snap', shown, hdrawing, htargets, rfl, hrecalls⟩
  | cons node _ =>
      simp only [hids]
      exact ⟨snap, snap', shown, hdrawing, htargets, rfl, hrecalls⟩

/-- Only the targets differ. -/
theorem Forgets.exists_eq (hf : Forgets g d h h') : ∃ targets, h' = h.retarget targets := by
  obtain ⟨_, _, _, -, -, heq, -⟩ := hf
  exact ⟨_, heq⟩

section Told

variable {targets : List Target} {told : Highlighter}

/-- Fields that do not count are changed in step. -/
theorem Forgets.of_eq (hf : Forgets g d h (h.retarget targets)) (hdrawing : told.drawing = h.drawing)
    (htargets : told.targets = h.targets) : Forgets g d told (told.retarget targets) := by
  obtain ⟨snap, snap', shown, hdrawing', htargets', heq, hrecalls⟩ := hf
  have heq : targets = (targetsIn g d).map (Target.withSnapshot snap') :=
    congrArg Highlighter.targets heq
  exact ⟨snap, snap', shown, hdrawing.trans hdrawing', htargets.trans htargets', by rw [heq],
    hrecalls⟩

/-- What both are told, both draw. -/
theorem Forgets.apply_told (hf : Forgets g d h (h.retarget targets)) (hd : Displays g d looks h)
    (hclean : Clean g d) (hgraph : told.graph = h.graph) (hdrawing : told.drawing = h.drawing)
    (htargets : told.targets = h.targets) :
    Forgets g d told.apply (told.retarget targets).apply :=
  (hf.of_eq hdrawing htargets).apply (hd.of_eq hgraph hdrawing htargets) hclean

/-- Showing a step keeps them in step. -/
theorem Forgets.showStep (hf : Forgets g d h (h.retarget targets)) (hd : Displays g d looks h)
    (hclean : Clean g d) (line : Int) (bindings : List Binding) :
    Forgets g d (h.showStep line bindings) ((h.retarget targets).showStep line bindings) := by
  let told : Highlighter := { h with current := some line, bindings := bindings }
  have happly : Forgets g d told.apply (told.retarget targets).apply :=
    hf.apply_told hd hclean rfl rfl rfl
  have hcentered : (told.retarget targets).apply.isCentered = told.apply.isCentered := by
    obtain ⟨_, heq⟩ := happly.exists_eq
    rw [heq]
    rfl
  change Forgets g d
    (if h.isReady then if told.apply.isCentered then told.apply.scroll else told.apply else told)
    (if h.isReady then if (told.retarget targets).apply.isCentered
      then (told.retarget targets).apply.scroll else (told.retarget targets).apply
      else told.retarget targets)
  rw [hcentered]
  split_ifs
  · exact happly.scroll
  · exact happly
  · exact hf.of_eq rfl rfl

/-- Changing the theme keeps them in step. -/
theorem Forgets.setTheme (hf : Forgets g d h (h.retarget targets)) (hd : Displays g d looks h)
    (hclean : Clean g d) (theme : Theme) :
    Forgets g d (h.setTheme theme) ((h.retarget targets).setTheme theme) := by
  let told : Highlighter := { h with theme := theme }
  change Forgets g d (if h.isReady && h.current.isSome then told.apply else told)
    (if h.isReady && h.current.isSome then (told.retarget targets).apply else told.retarget targets)
  split_ifs
  · exact hf.apply_told hd hclean rfl rfl rfl
  · exact hf.of_eq rfl rfl

/-- A change of the width keeps them in step. -/
theorem Forgets.resized (hf : Forgets g d h (h.retarget targets)) (hd : Displays g d looks h)
    (hclean : Clean g d) (container chart : Option Number) :
    Forgets g d (h.resized container chart) ((h.retarget targets).resized container chart) := by
  have hfitted : ∀ zoom : Float, let told : Highlighter := { h with zoom := zoom }
      Forgets g d
        (if told.isReady && !told.isCentered && told.current.isSome then
          if told.apply.highlighted.isEmpty then told.apply
          else { told.apply.scroll with isCentered := true }
        else told)
        (if told.isReady && !told.isCentered && told.current.isSome then
          if (told.retarget targets).apply.highlighted.isEmpty then (told.retarget targets).apply
          else { (told.retarget targets).apply.scroll with isCentered := true }
        else told.retarget targets) := by
    intro zoom told
    have happly : Forgets g d told.apply (told.retarget targets).apply :=
      hf.apply_told hd hclean rfl rfl rfl
    have hhighlighted : (told.retarget targets).apply.highlighted = told.apply.highlighted := by
      obtain ⟨_, heq⟩ := happly.exists_eq
      rw [heq]
      rfl
    rw [hhighlighted]
    split_ifs
    · exact happly
    · obtain ⟨targets', heq⟩ := happly.scroll.exists_eq
      have hscroll := happly.scroll
      rw [heq] at hscroll ⊢
      exact hscroll.of_eq rfl rfl
    · exact hf.of_eq rfl rfl
  cases container with
  | none => exact hfitted h.zoom
  | some container =>
      cases chart with
      | none => exact hfitted h.zoom
      | some chart => exact hfitted (fitZoom h.settings (some container) (some chart))

end Told

/-- Events go in step. -/
theorem Forgets.handle (hf : Forgets g d h h') (hd : Displays g d looks h) (hclean : Clean g d)
    (e : Event) : Forgets g d (h.handle e) (h'.handle e) := by
  obtain ⟨targets, rfl⟩ := hf.exists_eq
  cases e with
  | resized container chart => exact hf.resized hd hclean container chart
  | stepShown line bindings => exact hf.showStep hd hclean line bindings
  | themeSet theme => exact hf.setTheme hd hclean theme
  | cleared => exact hf.clear hd hclean

/-- Histories go in step. -/
theorem Forgets.after (hf : Forgets g d h h') (hd : Displays g d looks h) (hclean : Clean g d)
    (hready : h.isReady = true) (events : List Event) :
    Forgets g d (h.after events) (h'.after events) := by
  induction events generalizing h h' looks with
  | nil => exact hf
  | cons e events ih =>
      exact ih (hf.handle hd hclean e) (hd.handle hclean hready e) (view_handle hready e).2

/-! ### Announcing the drawing again -/

/-- A highlighter that gets its drawing again, with the labels as they were first, forgets their
snapshots and no more. -/
theorem forgets_withDrawing (hd : Displays g d looks h) (hclean : Clean g d)
    (hdrawing : h.drawing = some shown) (hsame : SameLabels g d shown) :
    Forgets g d { h with highlighted := [], isReady := true, isCentered := false }
      (h.withDrawing shown g) := by
  obtain ⟨hgraph, snap, shown', hdrawing', htargets, hdressed⟩ := hd
  obtain rfl := Option.some.inj (hdrawing.symm.trans hdrawing')
  have hforgotten : (targetsIn g d).map (Target.withSnapshot fun _ => none) = targetsIn g shown := by
    rw [hdressed.targetsIn_eq hclean hsame]
    refine (List.map_congr_left fun t ht => ?_).trans (List.map_id _)
    obtain ⟨-, -, -, -, -, hsnapshot⟩ := exists_first_of_mem_targetsIn ht
    rw [id, Target.withSnapshot, ← hsnapshot]
  refine ⟨snap, fun _ => none, shown, hdrawing, htargets, ?_, fun t ht path hpath => ?_⟩
  · rw [hforgotten, withDrawing, ← hgraph, ← hdrawing]
    rfl
  · cases hs : snap t.node with
    | none => exact .same none
    | some s =>
        obtain ⟨p, -, -, hp, -⟩ := exists_first_of_mem_targetsIn ht
        obtain ⟨first, e, hfirst, he, hlabel, huntouched, hw⟩ := hdressed.exists_wears hclean ht hp
        obtain ⟨l, hl, hat⟩ := hw.snapshot_eq s hs
        obtain rfl : p ++ l = path := by
          rw [hlabel, hl, Option.map_some] at hpath
          exact Option.some.inj hpath
        have hunkept := huntouched.attr?_textKept_label hat
        have hlettered := hw.at?_label_eq huntouched hl hat
        rw [hs] at hlettered
        rcases hsame t ht (p ++ l) hpath s (by rw [at?_append, hfirst]; exact hat) with hlost | hkept
        · -- it had values, so its text is still kept in it
          rw [at?_append, he, Option.bind_some, hlettered] at hlost
          have hkept := (keeps_letter (looks t.node) hunkept).attr?_textKept
          rw [Option.isSome_some, Option.some.inj hlost] at *
          exact absurd (hkept.symm.trans hunkept) (Option.some_ne_none _)
        · exact .missing hkept

/-- From then on it goes in step with one that shows the drawing as well and has forgotten nothing. -/
theorem forgets_graphReady (hd : Displays g d looks h) (hclean : Clean g d)
    (hdrawing : h.drawing = some shown) (hsame : SameLabels g d shown) :
    ∃ kept looks, Forgets g d kept (h.graphReady shown g) ∧ Displays g d looks kept ∧
      kept.isReady = true := by
  let kept : Highlighter := { h with highlighted := [], isReady := true, isCentered := false }
  have hforgets : Forgets g d kept (h.withDrawing shown g) :=
    forgets_withDrawing hd hclean hdrawing hsame
  have hkept : Displays g d looks kept := hd.of_eq rfl rfl rfl
  rw [graphReady_eq]
  split_ifs
  · exact ⟨kept.apply, _, hforgets.apply hkept hclean, (hkept.apply hclean).1, (view_apply kept).2⟩
  · exact ⟨kept, _, hforgets, hkept, rfl⟩

end Highlighter

open Highlighter

/-- What is left of a drawing when everything is cleared. -/
theorem Displays.exists_left {g : Graph} {d : Element} {looks : String → Option Look}
    {h : Highlighter} (hd : Displays g d looks h) (hclean : Clean g d) :
    ∃ left, h.clear.drawing = some left ∧ SameLabels g d left ∧
      left.mapAll bare = d.mapAll bare := by
  obtain ⟨-, snap, left, hleft, -, hdressed⟩ := hd.clear hclean
  exact ⟨left, hleft, hdressed.sameLabels hclean fun _ _ _ hk => absurd hk (Option.not_mem_none _),
    hdressed.bare_eq (dressed_first g d) hclean⟩

/-- A highlighter that gets its drawing again, after any events that leave the labels as they were first,
takes values out of labels as before: whatever it is told later, clearing gives each label back as it
was first, and the whole drawing but for empty styles and for texts kept in labels. -/
theorem labels_announced_again (h₀ : Highlighter) (g : Graph) (d : Element) (hclean : Clean g d)
    (past later : List Event) {shown : Element}
    (hshown : ((h₀.graphReady d g).after past).drawing = some shown)
    (hsame : SameLabels g d shown) :
    let told := (h₀.graphReady d g).after past
    ∃ again once, ((told.graphReady shown g).after later).clear.drawing = some again ∧
      (told.after later).clear.drawing = some once ∧
      SameLabels g d again ∧ SameLabels g d once ∧
      again.mapAll bare = d.mapAll bare ∧ once.mapAll bare = d.mapAll bare := by
  intro told
  have htold := displays_after hclean h₀ past
  have hready : told.isReady = true := (view_after (view_graphReady h₀ d g).2 past).2
  obtain ⟨_, honce⟩ := htold.after hclean hready later
  obtain ⟨once, hleft, hlabels, hbare⟩ := honce.exists_left hclean
  obtain ⟨kept, _, hforgets, hkept, hready'⟩ := forgets_graphReady htold hclean hshown hsame
  obtain ⟨_, hlater⟩ := hkept.after hclean hready' later
  obtain ⟨again, hleft', hlabels', hbare'⟩ := hlater.exists_left hclean
  -- both are left with the same drawing
  have hstep := (hforgets.after hkept hclean hready' later).clear hlater hclean
  obtain ⟨targets, heq⟩ := hstep.exists_eq
  exact ⟨again, once, by rw [heq]; exact hleft', hleft, hlabels', hlabels, hbare', hbare⟩

/-- A step without variables follows one with variables before the drawing is announced again. -/
theorem labels_announced_again_twoNodes :
    let told := (({} : Highlighter).graphReady twoNodesDrawn twoNodes).after
      [.stepShown 1 [("x", "2"), ("y", "3")], .stepShown 2 []]
    ∃ shown again, told.drawing = some shown ∧
      ((told.graphReady shown twoNodes).after
        [.stepShown 1 [("y", "4")], .themeSet .dark]).clear.drawing = some again ∧
      SameLabels twoNodes twoNodesDrawn again := by
  intro told
  obtain ⟨-, snap, shown, hshown, -, hdressed⟩ := displays_after clean_twoNodesDrawn {}
    [.stepShown 1 [("x", "2"), ("y", "3")], .stepShown 2 []]
  have hplain : ∀ line, ∀ t ∈ targetsIn twoNodes twoNodesDrawn,
      ∀ k ∈ looksOn twoNodes twoNodesDrawn (some line) ⟨.light, [], []⟩ t.node,
        k.isLettered = false := by
    intro line t _ k hk
    rw [looksOn, Option.bind_some] at hk
    split_ifs at hk
    · rw [← Option.some.inj hk]
      rfl
    · exact absurd hk (Option.not_mem_none k)
  obtain ⟨again, -, hagain, -, hlabels, -⟩ := labels_announced_again {} twoNodes twoNodesDrawn
    clean_twoNodesDrawn _ [.stepShown 1 [("y", "4")], .themeSet .dark] hshown
    (hdressed.sameLabels clean_twoNodesDrawn (hplain 2))
  exact ⟨shown, again, hshown, hagain, hlabels⟩

/-- A statement whose label has a picture in it. -/
def pictureNodes : Graph where
  nodes := [⟨"L1_1", .process, "x", some 1, none, "x"⟩]

/-- A drawing of it. -/
def pictureDrawn : Element :=
  ⟨some "svg", [], none, none, [
    ⟨some "g", [("id", "flowchart-L1_1-0"), ("class", "node")], none, none, [
      ⟨some "text", [], some "x", none, [⟨some "path", [("style", "fill:red")], none, none, []⟩]⟩]⟩]⟩

/-- Values that are in a label while the drawing is announced again stay in it, and a picture in a label
keeps the style of highlighted shapes. -/
theorem values_announced_again :
    let told := (({} : Highlighter).graphReady twoNodesDrawn twoNodes).showStep 1 [("y", "3")]
    let pictured := (({} : Highlighter).graphReady pictureDrawn pictureNodes).graphReady pictureDrawn
      pictureNodes
    Clean twoNodes twoNodesDrawn ∧
      (∃ t ∈ targetsIn twoNodes twoNodesDrawn, t.label = some [0, 1, 0]) ∧
      (twoNodesDrawn.at? [0, 1, 0]).bind (·.text) = some "x = y" ∧
      (told.clear.drawing.bind (·.at? [0, 1, 0])).bind (·.text) = some "x = y" ∧
      (told.drawing.bind fun shown =>
        ((told.graphReady shown twoNodes).clear.drawing.bind (·.at? [0, 1, 0])).bind (·.text)) =
          some "x = " ∧
      (∃ t ∈ targetsIn pictureNodes pictureDrawn, t.label = some [0, 0]) ∧
      (pictureDrawn.at? [0, 0, 0]).bind (·.attr? "style") = some "fill:red" ∧
      ((pictured.showStep 1 [("x", "2")]).clear.drawing.bind (·.at? [0, 0, 0])).bind
        (·.attr? "style") = some Theme.light.shapeStyle := by
  intro told pictured
  exact ⟨clean_twoNodesDrawn, by decide +kernel⟩

end Flowchart
