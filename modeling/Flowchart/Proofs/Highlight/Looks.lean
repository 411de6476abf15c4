import Flowchart.Proofs.Highlight.Labels

/-!
# Looks of nodes

The element of a node in a drawing looks as it was first, or it is painted and its label has values in
it. `Wears first look snapshot e` says that `e` is what the element `first` has become: it has the look
`look` or none, and `snapshot` is what its label was before it first got values, if it ever did.

However often a node was highlighted, undoing that gives what it wears without a look
(`Wears.undone`), and highlighting it gives what it wears with the look (`Wears.redone`): nothing adds
up. What a node wears is known from its first state and its look, but for the text kept in its label
and for empty styles (`Wears.bare_eq`).

## What is kept on an element

Painting keeps the style that an element had in an attribute of its own, and new text in a label keeps
the plain text in another one. These attributes are how a look can be taken away again, and they stay
when it is. So an element that once was highlighted is not the one it was at first. `Wears` allows for
what stays: the element is the first one, with or without empty styles shed, in its look, and with the
text of its label kept if there is a snapshot.

## Main results

* `wears_first`: a node wears no look at first.
* `Wears.undone`, `Wears.redone`: undoing and highlighting, whatever was done before.
* `Wears.bare_eq`: what a node is when bare depends on its look alone.
-/

namespace Flowchart

open Element

/-- Whether there are values for the label. -/
def Look.isLettered (look : Look) : Bool := !look.bindings.isEmpty

/-- A label with the values of a look in it. -/
def Look.inject (look : Look) : Element → Element :=
  Flowchart.inject look.theme look.inputs look.bindings

/-- Changes the label of an element, if it has one. -/
def modifyLabel (label : Option Path) (f : Element → Element) (e : Element) : Element :=
  match label with
  | none => e
  | some l => e.modifyAt l f

/-- Without a label nothing is changed. -/
@[simp] theorem modifyLabel_none (f : Element → Element) (e : Element) :
    modifyLabel none f e = e := rfl

/-- The label is changed where it stands. -/
@[simp] theorem modifyLabel_some (l : Path) (f : Element → Element) (e : Element) :
    modifyLabel (some l) f e = e.modifyAt l f := rfl

/-- What becomes of the first state of a label: it has the values of the look if there are any, and
otherwise it is as it was, with its text kept if it had values before. -/
def letter (look : Option Look) (hadValues : Bool) (label : Element) : Element :=
  match look.filter Look.isLettered with
  | some look => look.inject label
  | none => if hadValues then keepText label else label

/-- What undoing does to the element of a node whose label has the given snapshot. -/
def undone (label : Option Path) (snapshot : Option Element) (e : Element) : Element :=
  match snapshot with
  | none => mapAll unpaint e
  | some s => modifyLabel label (restore s) (mapAll unpaint e)

/-- What highlighting does to the element of a node. -/
def redone (look : Look) (label : Option Path) (e : Element) : Element :=
  let painted := mapAll (paint look.theme) e
  if look.isLettered then modifyLabel label look.inject painted else painted

/-- An element in which nothing is kept yet, and whose label holds no shape. -/
structure Untouched (first : Element) : Prop where
  unkept : ∀ p x, first.at? p = some x → x.attr? styleKept = none ∧ x.attr? textKept = none
  label_plain : ∀ l ∈ first.label?, ∀ x, first.at? l = some x → HasNoShape x

/-- The element `e` is what `first` has become: see the module's description. -/
structure Wears (first : Element) (look : Option Look) (snapshot : Option Element) (e : Element) :
    Prop where
  /-- Empty styles may be lost already. -/
  eq : ∃ base, (base = id ∨ base = shed) ∧
    e = modifyLabel first.label? (letter look snapshot.isSome) (mapAll (dye look ∘ base) first)
  snapshot_eq : ∀ s ∈ snapshot, ∃ l, first.label? = some l ∧ first.at? l = some s
  kept : ∀ k ∈ look, k.isLettered = true → first.label?.isSome = true → snapshot.isSome = true

section Letter

variable {look : Option Look} {label l : Element}

/-- A look with values writes them into the label. -/
theorem letter_of_values {k : Look} (h : k.isLettered = true) (hadValues : Bool) (label : Element) :
    letter (some k) hadValues label = k.inject label := by
  rw [letter, Option.filter_some_pos h]

/-- A look without values leaves a label as it was, or with its text kept. -/
theorem letter_of_no_values (h : ∀ k ∈ look, k.isLettered = false) (hadValues : Bool)
    (label : Element) :
    letter look hadValues label = if hadValues then keepText label else label := by
  have hnone : look.filter Look.isLettered = none := by
    rw [Option.filter_eq_none_iff]
    intro k hk
    simp [h k hk]
  rw [letter, hnone]

/-- A label that had values keeps its text. -/
theorem keeps_letter (look : Option Look) (h : label.attr? textKept = none) :
    Keeps label (letter look true label) := by
  rw [letter]
  split
  · exact keeps_inject _ _ _ h
  · exact keeps_keepText label

/-- New values are put into the first text of a label, whatever was shown before. -/
theorem inject_letter (k : Look) (look : Option Look) (hadValues : Bool)
    (h : label.attr? textKept = none) : k.inject (letter look hadValues label) = k.inject label := by
  have hkeeps : ∀ l, Keeps label l → k.inject l = k.inject label := fun l hl =>
    hl.inject_eq k.theme k.inputs k.bindings h
  rw [letter]
  split
  · exact hkeeps _ (keeps_inject _ _ _ h)
  · split_ifs
    · exact hkeeps _ (keeps_keepText label)
    · rfl

/-- `l` is `label` with its text kept or not, and with what was in it first or with parts of labels. -/
structure Relabelled (label l : Element) : Prop where
  tag_eq : l.tag = label.tag
  attrs_eq : l.attrs = label.attrs ∨ l.attrs = put label.attrs textKept label.content
  children_eq : l.children = label.children ∨ ∀ part ∈ l.children, ∃ t, LabelPart t label part

/-- Whatever the look, the label is one with another text. -/
theorem relabelled_letter (look : Option Look) (hadValues : Bool) (h : label.attr? textKept = none) :
    Relabelled label (letter look hadValues label) := by
  rw [letter]
  split
  next k _ =>
    obtain ⟨text, parts, heq, hparts⟩ := exists_inject_eq k.theme k.inputs k.bindings label
    rw [Look.inject, heq, h]
    exact ⟨rfl, Or.inr rfl, Or.inr fun part hpart => ⟨k.theme, hparts part hpart⟩⟩
  next =>
    split_ifs
    · exact ⟨rfl, Or.inr rfl, Or.inl rfl⟩
    · exact ⟨rfl, Or.inl rfl, Or.inl rfl⟩

/-- A label with another text has the same attributes but for the text kept. -/
theorem Relabelled.attr?_eq (h : Relabelled label l) {key : String} (hkey : textKept ≠ key) :
    l.attr? key = label.attr? key := by
  rw [attr?, attr?]
  rcases h.attrs_eq with hattrs | hattrs <;> rw [hattrs]
  exact get?_put_of_ne hkey _ _

/-- A label with another text is a shape if it was one. -/
theorem Relabelled.isShape_eq (h : Relabelled label l) : isShape l = isShape label := by
  rw [isShape, isShape, Element.name, Element.name, h.tag_eq]

/-- What is in a label was in it first, or it is a part of a label. -/
theorem Relabelled.below (h : Relabelled label l) {i : Nat} {p : Path} {x : Element}
    (hx : l.at? (i :: p) = some x) : label.at? (i :: p) = some x ∨ ∃ t, LabelPart t label x := by
  rw [at?_cons] at hx
  rcases h.children_eq with hchildren | hparts
  · rw [at?_cons, ← hchildren]
    exact Or.inl hx
  · obtain ⟨part, hpart, hx⟩ := Option.bind_eq_some_iff.mp hx
    obtain ⟨t, ht⟩ := hparts part (List.mem_of_getElem? hpart)
    -- there is nothing in a part
    cases p with
    | nil => exact Or.inr ⟨t, Option.some.inj hx ▸ ht⟩
    | cons j p =>
        rw [at?_cons, ht.children_eq] at hx
        exact absurd hx (by simp)

/-- A label with another text has no shapes in it if it had none. -/
theorem Relabelled.hasNoShape (h : Relabelled label l) (hlabel : HasNoShape label) :
    HasNoShape l := by
  intro p x hx
  cases p with
  | nil =>
      obtain rfl := Option.some.inj hx
      exact h.isShape_eq.trans (hlabel [] label rfl)
  | cons i p =>
      rcases h.below hx with hx | ⟨t, ht⟩
      · exact hlabel _ x hx
      · exact ht.isShape_eq_false

end Letter

section Wears

variable {first e : Element} {look : Option Look} {snapshot : Option Element}

/-- Losing empty styles or not changes shapes alone. -/
theorem changesShapes_base {base : Element → Element} (h : base = id ∨ base = shed) :
    ChangesShapes base := by
  rcases h with rfl | rfl
  · exact changesShapes_id
  · exact changesShapes_shed

/-- Losing empty styles or not changes no attribute but the style. -/
theorem attr?_base {base : Element → Element} (h : base = id ∨ base = shed) {key : String}
    (hkey : "style" ≠ key) (x : Element) : (base x).attr? key = x.attr? key := by
  rcases h with rfl | rfl
  · rfl
  · exact attr?_shed_of_ne hkey x

/-- Changes of shapes do not reach the label. -/
theorem Untouched.at?_label (h : Untouched first) {l : Path} {label : Element}
    (hl : first.label? = some l) (hlabel : first.at? l = some label) {f : Element → Element}
    (hf : ChangesShapes f) : (mapAll f first).at? l = some label := by
  rw [at?_mapAll hf.shallow, hlabel, Option.map_some,
    hf.mapAll_eq_self (h.label_plain l hl label hlabel)]

/-- A label that was never touched keeps no text. -/
theorem Untouched.attr?_textKept_label (h : Untouched first) {l : Path} {label : Element}
    (hlabel : first.at? l = some label) : label.attr? textKept = none :=
  (h.unkept l label hlabel).2

/-- A drawing that was just made wears nothing. -/
theorem wears_first (first : Element) : Wears first none none first where
  eq := by
    refine ⟨id, Or.inl rfl, ?_⟩
    have hid : mapAll (dye none ∘ id) first = first := mapAll_id first
    rw [hid]
    cases first.label? with
    | none => rfl
    | some l => exact (modifyAt_eq_self fun x _ => rfl).symm
  snapshot_eq := by simp
  kept := by simp

/-- A change of shapes after a change of the label, as long as what stands there is no shape. -/
theorem Untouched.mapAll_modifyLabel (h : Untouched first) {f g : Element → Element}
    (hf : ChangesShapes f) (hg : ChangesShapes g) {change : Element → Element}
    (hchange : ∀ l ∈ first.label?, ∀ x, first.at? l = some x → HasNoShape (change x)) :
    mapAll f (modifyLabel first.label? change (mapAll g first)) =
      modifyLabel first.label? change (mapAll (f ∘ g) first) := by
  cases hl : first.label? with
  | none => exact mapAll_mapAll hf.shallow hg.shallow first
  | some l =>
      obtain ⟨label, hlabel⟩ := exists_at?_of_label? hl
      rw [modifyLabel_some, modifyLabel_some, ← mapAll_mapAll hf.shallow hg.shallow]
      refine mapAll_modifyAt hf.shallow fun x hx => ?_
      rw [h.at?_label hl hlabel hg] at hx
      obtain rfl := Option.some.inj hx
      rw [hf.mapAll_eq_self (hchange l hl label hlabel),
        hf.mapAll_eq_self (h.label_plain l hl label hlabel)]

/-- What stands in a label that has values, or had them, is no shape. -/
theorem Untouched.hasNoShape_letter (h : Untouched first) (look : Option Look) (hadValues : Bool) :
    ∀ l ∈ first.label?, ∀ x, first.at? l = some x → HasNoShape (letter look hadValues x) :=
  fun l hl x hx => (relabelled_letter look hadValues (h.attr?_textKept_label hx)).hasNoShape
    (h.label_plain l hl x hx)

/-- The label of an element that wears a look, whatever is done to shapes. -/
theorem Wears.at?_label (hw : Wears first look snapshot e) (h : Untouched first) {l : Path}
    {label : Element} (hl : first.label? = some l) (hlabel : first.at? l = some label)
    {f : Element → Element} (hf : ChangesShapes f) :
    (mapAll f e).at? l = some (letter look snapshot.isSome label) := by
  obtain ⟨base, hbase, rfl⟩ := hw.eq
  have hpaint := (changesShapes_dye look).comp (changesShapes_base hbase)
  rw [h.mapAll_modifyLabel hf hpaint (h.hasNoShape_letter look _), hl, modifyLabel_some,
    at?_modifyAt_self, h.at?_label hl hlabel (hf.comp hpaint)]
  rfl

/-- A label with a snapshot has its text kept. -/
theorem Wears.isSome_textKept {s : Element} (hw : Wears first look (some s) e) (h : Untouched first)
    {l : Path} (hl : first.label? = some l) : ∃ label, (mapAll unpaint e).at? l = some label ∧
      (label.attr? textKept).isSome = true := by
  obtain ⟨label, hlabel⟩ := exists_at?_of_label? hl
  refine ⟨_, hw.at?_label h hl hlabel changesShapes_unpaint, ?_⟩
  rw [Option.isSome_some, (keeps_letter look (h.attr?_textKept_label hlabel)).attr?_textKept]
  rfl

/-- What undoing leaves of the paint: an empty style may be lost. -/
theorem exists_unpaint_dye (h : Untouched first) (look : Option Look) {base : Element → Element}
    (hbase : base = id ∨ base = shed) : ∃ base', (base' = id ∨ base' = shed) ∧
      mapAll (unpaint ∘ dye look ∘ base) first = mapAll base' first := by
  have hkept : ∀ p x, first.at? p = some x → (base x).attr? styleKept = none := fun p x hx =>
    (attr?_base hbase (by decide) x).trans (h.unkept p x hx).1
  have hshallow := (changesShapes_unpaint.comp
    ((changesShapes_dye look).comp (changesShapes_base hbase))).shallow
  cases look with
  | none =>
      refine ⟨base, hbase, mapAll_congr hshallow (changesShapes_base hbase).shallow ?_⟩
      exact fun p x hx => unpaint_of_attr?_eq_none (hkept p x hx)
  | some k =>
      refine ⟨shed, Or.inr rfl, mapAll_congr hshallow changesShapes_shed.shallow fun p x hx => ?_⟩
      refine (unpaint_paint k.theme (hkept p x hx)).trans ?_
      rcases hbase with rfl | rfl
      · rfl
      · exact shed_shed x

/-- A label without a snapshot has no values. -/
theorem Wears.no_values (hw : Wears first look none e) {l : Path} (hl : first.label? = some l) :
    ∀ k ∈ look, k.isLettered = false := fun k hk => by
  by_contra hcontra
  exact absurd (hw.kept k hk (Bool.not_eq_false _ ▸ hcontra) (by rw [hl]; rfl)) (by simp)

/-- Undoing gives what is worn without a look. -/
theorem Wears.undone (hw : Wears first look snapshot e) (h : Untouched first) :
    Wears first none snapshot (undone first.label? snapshot e) := by
  obtain ⟨base, hbase, heq⟩ := hw.eq
  obtain ⟨base', hbase', hmap⟩ := exists_unpaint_dye h look hbase
  have hunpaint : mapAll unpaint e =
      modifyLabel first.label? (letter look snapshot.isSome) (mapAll base' first) := by
    rw [heq, h.mapAll_modifyLabel changesShapes_unpaint
      ((changesShapes_dye look).comp (changesShapes_base hbase)) (h.hasNoShape_letter look _), hmap]
  refine ⟨⟨base', hbase', ?_⟩, hw.snapshot_eq, by simp⟩
  cases snapshot with
  | none =>
      rw [Flowchart.undone, hunpaint]
      cases hl : first.label? with
      | none => rfl
      | some l => exact modifyAt_congr fun x _ => letter_of_no_values (hw.no_values hl) _ x
  | some s =>
      obtain ⟨l, hl, hs⟩ := hw.snapshot_eq s rfl
      rw [Flowchart.undone, hunpaint, hl, modifyLabel_some, modifyLabel_some, modifyLabel_some,
        modifyAt_modifyAt]
      refine modifyAt_congr fun x hx => ?_
      rw [h.at?_label hl hs (changesShapes_base hbase')] at hx
      obtain rfl := Option.some.inj hx
      exact (keeps_letter look (h.attr?_textKept_label hs)).restore_eq

/-- Highlighting gives what is worn with the look, and a snapshot of the label is there if it has values:
the label as it was first. -/
theorem Wears.redone (hw : Wears first look snapshot e) (h : Untouched first) (k : Look)
    (hlook : look = none ∨ look = some k) :
    Wears first (some k)
      (if k.isLettered then snapshot.or (first.label?.bind (mapAll (paint k.theme) e).at?)
        else snapshot)
      (redone k first.label? e) := by
  obtain ⟨base, hbase, heq⟩ := hw.eq
  have hbases := changesShapes_base hbase
  have hpaint : mapAll (paint k.theme) e =
      modifyLabel first.label? (letter look snapshot.isSome) (mapAll (dye (some k) ∘ base) first) := by
    rw [heq, h.mapAll_modifyLabel (changesShapes_paint k.theme)
      ((changesShapes_dye look).comp hbases) (h.hasNoShape_letter look _)]
    refine congrArg _ (congrArg (mapAll · first) (funext fun x => ?_))
    rcases hlook with rfl | rfl
    · rfl
    · exact paint_paint k.theme k.theme (base x)
  rw [Flowchart.redone]
  cases hvalues : k.isLettered with
  | false =>
      rw [if_neg Bool.noConfusion, if_neg Bool.noConfusion]
      refine ⟨⟨base, hbase, ?_⟩, hw.snapshot_eq, fun k' hk' hk => ?_⟩
      · have hletter : letter look snapshot.isSome = letter (some k) snapshot.isSome := by
          funext x
          rcases hlook with rfl | rfl
          · rw [letter_of_no_values (by simp), letter_of_no_values (by simpa using hvalues)]
          · rfl
        rw [hpaint, hletter]
      · obtain rfl := Option.some.inj hk'
        exact absurd (hvalues.symm.trans hk) Bool.noConfusion
  | true =>
      rw [if_pos rfl, if_pos rfl]
      cases hl : first.label? with
      | none =>
          refine ⟨⟨base, hbase, by rw [hpaint, hl]; rfl⟩, fun s hs => ?_, fun _ _ _ hcontra => ?_⟩
          · exact absurd (hw.snapshot_eq s (by simpa using hs)) (by simp [hl])
          · exact absurd hcontra (by simp [hl])
      | some l =>
          obtain ⟨label, hlabel⟩ := exists_at?_of_label? hl
          have hsnapshot : snapshot.or ((mapAll (paint k.theme) e).at? l) = some label := by
            cases snapshot with
            | some s =>
                obtain ⟨l', hl', hs⟩ := hw.snapshot_eq s rfl
                obtain rfl := Option.some.inj (hl.symm.trans hl')
                rw [Option.some_or, ← hs, hlabel]
            | none =>
                rw [Option.none_or, hw.at?_label h hl hlabel (changesShapes_paint k.theme),
                  letter_of_no_values (hw.no_values hl)]
                rfl
          rw [Option.bind_some, hsnapshot]
          refine ⟨⟨base, hbase, ?_⟩, fun s hs => ?_, by simp⟩
          · rw [hpaint, hl, modifyLabel_some, modifyLabel_some, modifyLabel_some, modifyAt_modifyAt]
            refine modifyAt_congr fun x hx => ?_
            rw [h.at?_label hl hlabel ((changesShapes_dye _).comp hbases)] at hx
            obtain rfl := Option.some.inj hx
            rw [letter_of_values hvalues]
            exact inject_letter k look _ (h.attr?_textKept_label hlabel)
          · obtain rfl := Option.some.inj hs
            exact ⟨l, hl, hlabel⟩

/-- The text kept in a label does not count. -/
theorem mapAll_bare_letter (look : Option Look) (hadValues : Bool) (label : Element) :
    mapAll bare (letter look hadValues label) = mapAll bare (letter look false label) := by
  have hkept : mapAll bare (keepText label) = mapAll bare label := by
    rw [mapAll_eq, mapAll_eq bare label]
    exact bare_setAttr_textKept { label with children := label.children.map (mapAll bare) } _
  rw [letter, letter]
  cases look.filter Look.isLettered with
  | some k => rfl
  | none =>
      cases hadValues with
      | false => rfl
      | true => exact hkept

/-- What a node wears is known from its first state and its look, but for the text kept in its label
and for empty styles. -/
theorem Wears.bare_eq {snapshot' : Option Element} {e' : Element}
    (hw : Wears first look snapshot e) (hw' : Wears first look snapshot' e') (h : Untouched first) :
    mapAll bare e = mapAll bare e' := by
  have hbase : ∀ base : Element → Element, (base = id ∨ base = shed) →
      mapAll bare (mapAll (dye look ∘ base) first) = mapAll (bare ∘ dye look) first := by
    intro base hbase
    have hdye := changesShapes_dye look
    have hbases := changesShapes_base hbase
    rw [mapAll_mapAll shallow_bare (hdye.comp hbases).shallow]
    refine mapAll_congr (shallow_bare.comp (hdye.comp hbases).shallow)
      (shallow_bare.comp hdye.shallow) fun p x hx => ?_
    rcases hbase with rfl | rfl
    · rfl
    · exact bare_dye look (h.unkept p x hx).1
  have hworn : ∀ (s : Option Element) (y : Element), Wears first look s y → mapAll bare y =
      modifyLabel first.label?
        (fun _ => mapAll bare (letter look false ((first.label?.bind first.at?).getD first)))
        (mapAll (bare ∘ dye look) first) := by
    intro s y hy
    obtain ⟨base, hbases, rfl⟩ := hy.eq
    cases hl : first.label? with
    | none => exact hbase base hbases
    | some l =>
        obtain ⟨label, hlabel⟩ := exists_at?_of_label? hl
        rw [← hbase base hbases]
        refine mapAll_modifyAt shallow_bare fun x hx => ?_
        rw [h.at?_label hl hlabel ((changesShapes_dye look).comp (changesShapes_base hbases))] at hx
        obtain rfl := Option.some.inj hx
        rw [Option.bind_some, hlabel, Option.getD_some]
        exact mapAll_bare_letter look s.isSome label
  rw [hworn snapshot e hw, hworn snapshot' e' hw']

/-! ### Elements of a node -/

/-- No element of the drawing is highlighted. -/
def IsPlain (d : Element) : Prop :=
  ∀ p x, d.at? p = some x → ∀ t : Theme, x.attr? "style" ≠ some t.shapeStyle

/-- Whether a drawing is plain can be read off its elements in document order. -/
theorem isPlain_iff {d : Element} : IsPlain d ↔ ∀ place ∈ d.descendants,
    ∀ t ∈ [Theme.light, .dark], place.2.attr? "style" ≠ some t.shapeStyle := by
  constructor
  · exact fun h place hplace t _ => h place.1 place.2 (mem_descendants.mp hplace) t
  · exact fun h p x hx t => h (p, x) (mem_descendants.mpr hx) t (by cases t <;> simp)

instance (d : Element) : Decidable (IsPlain d) := decidable_of_iff _ isPlain_iff.symm

/-- Elements with the same head have the same attributes. -/
theorem attr?_of_head_eq {x y : Element} (h : head x = head y) (key : String) :
    x.attr? key = y.attr? key := by
  have hattr : (head x).attr? key = (head y).attr? key := by rw [h]
  exact hattr

/-- Elements with the same head are shapes together. -/
theorem isShape_of_head_eq {x y : Element} (h : head x = head y) : isShape x = isShape y := by
  have hshape : isShape (head x) = isShape (head y) := by rw [h]
  exact hshape

/-- An element in a node was painted where it stood, or it stands in the label. -/
theorem Wears.exists_first (hw : Wears first look snapshot e) (h : Untouched first) {p : Path}
    {x : Element} (hx : e.at? p = some x) :
    (∃ base x₀, (base = id ∨ base = shed) ∧ first.at? p = some x₀ ∧
        head x = head (dye look (base x₀))) ∨
      ∃ l label q, first.label? = some l ∧ first.at? l = some label ∧ p = l ++ q ∧
        (letter look snapshot.isSome label).at? q = some x := by
  obtain ⟨base, hbase, heq⟩ := hw.eq
  have hpaint := (changesShapes_dye look).comp (changesShapes_base hbase)
  have hfirst : ((mapAll (dye look ∘ base) first).at? p).map head = some (head x) →
      ∃ base x₀, (base = id ∨ base = shed) ∧ first.at? p = some x₀ ∧
        head x = head (dye look (base x₀)) := fun hhead => by
    rw [map_head_at?_mapAll hpaint.shallow, Option.map_map] at hhead
    obtain ⟨x₀, hx₀, hhead⟩ := Option.map_eq_some_iff.mp hhead
    exact ⟨base, x₀, hbase, hx₀, hhead.symm.trans (hpaint.shallow.head_eq x₀).symm⟩
  cases hl : first.label? with
  | none =>
      rw [hl, modifyLabel_none] at heq
      exact Or.inl (hfirst (by rw [← heq, hx, Option.map_some]))
  | some l =>
      obtain ⟨label, hlabel⟩ := exists_at?_of_label? hl
      rw [hl, modifyLabel_some] at heq
      by_cases hp : l <+: p
      · obtain ⟨q, rfl⟩ := hp
        refine Or.inr ⟨l, label, q, rfl, hlabel, rfl, ?_⟩
        rwa [heq, at?_modifyAt_append, h.at?_label hl hlabel hpaint] at hx
      · refine Or.inl (hfirst ?_)
        rw [← map_head_at?_modifyAt _ (letter look snapshot.isSome) hp, ← heq, hx, Option.map_some]

/-- Shapes of a node that has a look have the style of its theme. -/
theorem Wears.style_eq (hw : Wears first look snapshot e) (h : Untouched first) {k : Look}
    (hlook : look = some k) {p : Path} {x : Element} (hx : e.at? p = some x)
    (hshape : isShape x = true) : x.attr? "style" = some k.theme.shapeStyle := by
  subst hlook
  rcases hw.exists_first h hx with ⟨base, x₀, -, -, hhead⟩ | ⟨l, label, q, hl, hlabel, -, hq⟩
  · rw [attr?_of_head_eq hhead]
    refine style_paint k.theme ?_
    rwa [isShape_of_head_eq hhead, isShape_dye] at hshape
  · have hplain := h.hasNoShape_letter (some k) snapshot.isSome l hl label hlabel
    exact absurd ((hplain q x hq).symm.trans hshape) Bool.noConfusion

/-- Nothing else in a node has a style of highlighted shapes, if nothing had one first. -/
theorem Wears.style_ne (hw : Wears first look snapshot e) (h : Untouched first)
    (hfirst : IsPlain first) {p : Path} {x : Element} (hx : e.at? p = some x)
    (hother : isShape x = false ∨ look = none) (t : Theme) :
    x.attr? "style" ≠ some t.shapeStyle := by
  rcases hw.exists_first h hx with ⟨base, x₀, hbase, hx₀, hhead⟩ | ⟨l, label, q, hl, hlabel, rfl, hq⟩
  · have hplain : (base x₀).attr? "style" ≠ some t.shapeStyle := by
      rcases hbase with rfl | rfl
      · exact hfirst p x₀ hx₀ t
      · rw [shed]
        split_ifs
        · rw [attr?_dropAttr_self]
          exact (Option.some_ne_none _).symm
        · exact hfirst p x₀ hx₀ t
    have hdye : dye look (base x₀) = base x₀ := by
      rcases hother with hshape | rfl
      · refine (changesShapes_dye look).eq_self _ ?_
        rwa [isShape_of_head_eq hhead, isShape_dye] at hshape
      · rfl
    rwa [attr?_of_head_eq hhead, hdye]
  · have hrelabelled := relabelled_letter look snapshot.isSome (h.attr?_textKept_label hlabel)
    have hat : ∀ q y, label.at? q = some y → y.attr? "style" ≠ some t.shapeStyle := fun q y hy =>
      hfirst (l ++ q) y (by rw [at?_append, hlabel]; exact hy) t
    cases q with
    | nil =>
        obtain rfl := Option.some.inj hq
        rw [hrelabelled.attr?_eq (by decide)]
        exact hat [] label rfl
    | cons i q =>
        rcases hrelabelled.below hq with hq | ⟨t', hpart⟩
        · exact hat _ x hq
        · exact hpart.style_ne t

/-- Texts are kept in labels only. -/
theorem Wears.label_of_textKept (hw : Wears first look snapshot e) (h : Untouched first) {p : Path}
    {x : Element} (hx : e.at? p = some x) (hkept : x.attr? textKept ≠ none) :
    first.label? = some p := by
  rcases hw.exists_first h hx with ⟨base, x₀, hbase, hx₀, hhead⟩ | ⟨l, label, q, hl, hlabel, rfl, hq⟩
  · rw [attr?_of_head_eq hhead, attr?_dye_of_ne (by decide) (by decide),
      attr?_base hbase (by decide)] at hkept
    exact absurd (h.unkept p x₀ hx₀).2 hkept
  · have hrelabelled := relabelled_letter look snapshot.isSome (h.attr?_textKept_label hlabel)
    cases q with
    | nil => rw [List.append_nil, hl]
    | cons i q =>
        rcases hrelabelled.below hq with hq | ⟨t, hpart⟩
        · refine absurd (h.unkept (l ++ i :: q) x ?_).2 hkept
          rw [at?_append, hlabel]
          exact hq
        · exact absurd hpart.attr?_textKept hkept

end Wears

end Flowchart
