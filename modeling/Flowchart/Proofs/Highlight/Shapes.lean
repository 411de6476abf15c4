import Flowchart.Highlight
import Flowchart.Proofs.Svg.Attributes
import Flowchart.Proofs.Svg.Tree

/-!
# Styles of shapes

A shape that is painted and then gets its own style back is as it was, but for an empty style, which
it loses (`unpaint_paint`); a shape that is painted twice has the later paint only (`paint_paint`).

Drawings are compared by what is `bare` of them: the text kept in a label does not count, nor does the
place of a style among the attributes, and an empty style is none. Whether a shape had lost an empty
style before it was painted then makes no difference (`bare_dye`).

## The place of a style

Attributes are a list, and a style that is set on an element without one comes last. Taking the paint
off again leaves it there, so two drawings that look the same may differ in the order of attributes.
What is bare of an element has its style last, if there is one, which does away with this. Nothing else
about an element is left out of the comparison but the text that is kept in a label.

## Main results

* `unpaint_paint`: painting and undoing it leaves a shape without its empty style.
* `paint_paint`: the later paint replaces the earlier one.
* `bare_dye`: what is bare of a shape does not depend on an empty style it had.
-/

namespace Flowchart

open Element

/-! ### Comparing drawings -/

/-- The style of an element, empty if it has none. -/
def styleOf (e : Element) : String := (e.attr? "style").getD ""

/-- An element without the text kept in it, its style last and left out if it is empty. -/
def bare (e : Element) : Element :=
  let rest := (e.dropAttr "style").dropAttr textKept
  if (styleOf e).isEmpty then rest else rest.setAttr "style" (styleOf e)

/-- What is bare of an element is bare whatever is in it. -/
theorem shallow_bare : Shallow bare := by
  intro e children
  have hstyle : styleOf { e with children := children } = styleOf e := rfl
  simp only [bare, hstyle]
  split_ifs <;> rfl

/-- Elements with the same style, and the same apart from it and from the text kept, are the same
when bare. -/
theorem bare_congr {e e' : Element} (hstyle : styleOf e = styleOf e')
    (hrest : (e.dropAttr "style").dropAttr textKept = (e'.dropAttr "style").dropAttr textKept) :
    bare e = bare e' := by
  rw [bare, bare, hstyle, hrest]

/-- The text kept in an element does not count. -/
theorem bare_setAttr_textKept (e : Element) (text : String) :
    bare (e.setAttr textKept text) = bare e := by
  have hne : textKept ≠ "style" := by decide
  refine bare_congr ?_ ?_
  · rw [styleOf, styleOf, attr?_setAttr_of_ne hne]
  · rw [dropAttr_setAttr_of_ne hne, dropAttr_setAttr_self]

/-! ### Changes of shapes -/

/-- A change of elements that changes shapes only, and neither reads nor changes what is in them. -/
structure ChangesShapes (f : Element → Element) : Prop where
  shallow : Shallow f
  eq_self : ∀ e, isShape e = false → f e = e

/-- Two changes of shapes make one. -/
theorem ChangesShapes.comp {f g : Element → Element} (hf : ChangesShapes f) (hg : ChangesShapes g) :
    ChangesShapes (f ∘ g) where
  shallow := hf.shallow.comp hg.shallow
  eq_self := fun e h => by rw [Function.comp_apply, hg.eq_self e h, hf.eq_self e h]

/-- Changing nothing changes shapes alone. -/
theorem changesShapes_id : ChangesShapes id := ⟨fun _ _ => rfl, fun _ _ => rfl⟩

/-- No element of the drawing is a shape. -/
def HasNoShape (e : Element) : Prop := ∀ p x, e.at? p = some x → isShape x = false

/-- A change of shapes leaves a drawing without shapes as it is. -/
theorem ChangesShapes.mapAll_eq_self {f : Element → Element} (hf : ChangesShapes f) {e : Element}
    (h : HasNoShape e) : mapAll f e = e :=
  Element.mapAll_eq_self hf.shallow fun p x hx => hf.eq_self x (h p x hx)

/-- A shape without its style, if that is empty. -/
def shed (e : Element) : Element :=
  if isShape e && e.attr? "style" == some "" then e.dropAttr "style" else e

section Children

variable (e : Element) (children : List Element)

/-- Whether an element is a shape does not depend on what is in it. -/
theorem isShape_children : isShape { e with children := children } = isShape e := rfl

/-- Attributes do not depend on what is in the element. -/
theorem attr?_children (key : String) :
    ({ e with children := children } : Element).attr? key = e.attr? key := rfl

end Children

/-- Painting changes shapes alone. -/
theorem changesShapes_paint (t : Theme) : ChangesShapes (paint t) where
  shallow := fun e children => by
    simp only [paint]
    rw [isShape_children, attr?_children, attr?_children]
    split_ifs <;> rfl
  eq_self := fun e h => by rw [paint, h, if_neg Bool.noConfusion]

/-- Undoing a paint changes shapes alone. -/
theorem changesShapes_unpaint : ChangesShapes unpaint where
  shallow := fun e children => by
    cases hkept : e.attr? styleKept with
    | none => simp only [unpaint, attr?_children, hkept]
    | some style =>
        simp only [unpaint, attr?_children, hkept]
        rw [isShape_children]
        split_ifs <;> rfl
  eq_self := fun e h => by
    cases hkept : e.attr? styleKept <;> simp [unpaint, hkept, h]

/-- Losing an empty style changes shapes alone. -/
theorem changesShapes_shed : ChangesShapes shed where
  shallow := fun e children => by
    simp only [shed]
    rw [isShape_children, attr?_children]
    split_ifs <;> rfl
  eq_self := fun e h => by simp [shed, h]

section Shapes

variable {e : Element}

/-- A shape that is painted for the first time keeps the style it had. -/
theorem paint_of_isShape (t : Theme) (h : isShape e = true) (hkept : e.attr? styleKept = none) :
    paint t e = (e.setAttr styleKept (styleOf e)).setAttr "style" t.shapeStyle := by
  simp [paint, h, hkept, styleOf]

/-- Shapes that are painted have the style of the theme. -/
theorem style_paint (t : Theme) (h : isShape e = true) :
    (paint t e).attr? "style" = some t.shapeStyle := by
  rw [paint, if_pos h]
  exact attr?_setAttr_self _ _ _

/-- Shedding changes no attribute but the style. -/
theorem attr?_shed_of_ne {key : String} (h : "style" ≠ key) (e : Element) :
    (shed e).attr? key = e.attr? key := by
  rw [shed]
  split_ifs
  · exact attr?_dropAttr_of_ne h e
  · rfl

/-- Painting changes no attribute but the style and the style that is kept. -/
theorem attr?_paint_of_ne {key : String} (h : "style" ≠ key) (h' : styleKept ≠ key) (t : Theme)
    (e : Element) : (paint t e).attr? key = e.attr? key := by
  rw [paint]
  split_ifs
  · exact attr?_setAttr_of_ne h e _
  · exact (attr?_setAttr_of_ne h _ _).trans (attr?_setAttr_of_ne h' e _)
  · rfl

/-- What is a shape stays one without an empty style. -/
theorem isShape_shed (e : Element) : isShape (shed e) = isShape e := by
  rw [shed]
  split_ifs <;> rfl

/-- What is a shape stays one in every paint. -/
theorem isShape_paint (t : Theme) (e : Element) : isShape (paint t e) = isShape e := by
  rw [paint]
  split_ifs <;> rfl

/-- An empty style and none are the same style. -/
theorem styleOf_shed (e : Element) : styleOf (shed e) = styleOf e := by
  rw [shed]
  split_ifs with h
  · simp only [Bool.and_eq_true, beq_iff_eq] at h
    simp [styleOf, h.2]
  · rfl

/-- An empty style is lost once. -/
theorem shed_shed (e : Element) : shed (shed e) = shed e := by
  by_cases h : isShape e && e.attr? "style" == some ""
  · have hshed : shed e = e.dropAttr "style" := if_pos h
    rw [hshed, shed, attr?_dropAttr_self, if_neg (by simp)]
  · have hshed : shed e = e := if_neg h
    rw [hshed, hshed]

/-- A shape gets its own style back. -/
theorem unpaint_paint (t : Theme) (hkept : e.attr? styleKept = none) :
    unpaint (paint t e) = shed e := by
  cases hshape : isShape e with
  | false =>
      rw [(changesShapes_paint t).eq_self e hshape, changesShapes_unpaint.eq_self e hshape,
        changesShapes_shed.eq_self e hshape]
  | true =>
      have hne : "style" ≠ styleKept := by decide
      have hown : (paint t e).attr? styleKept = some (styleOf e) := by
        rw [paint_of_isShape t hshape hkept, attr?_setAttr_of_ne hne, attr?_setAttr_self]
      have hdrop : (paint t e).dropAttr styleKept = e.setAttr "style" t.shapeStyle := by
        rw [paint_of_isShape t hshape hkept, dropAttr_setAttr_of_ne hne, dropAttr_setAttr_self,
          dropAttr_of_attr?_eq_none hkept]
      rw [unpaint, hown]
      simp only [isShape_paint, hshape, if_true, hdrop]
      split_ifs with hempty
      · -- an empty style is lost, none stays none
        rw [dropAttr_setAttr_self, shed]
        cases hstyle : e.attr? "style" with
        | none => simp [dropAttr_of_attr?_eq_none hstyle]
        | some style =>
            have hnil : style = "" := by simpa [styleOf, hstyle] using hempty
            simp [hshape, hnil]
      · rw [setAttr_setAttr, shed]
        cases hstyle : e.attr? "style" with
        | none => exact absurd hempty (by simp [styleOf, hstyle])
        | some style =>
            have hne : style ≠ "" := by simpa [styleOf, hstyle] using hempty
            simp [styleOf, hstyle, hne, setAttr_of_attr? hstyle]

/-- What was never painted stays as it is. -/
theorem unpaint_of_attr?_eq_none (hkept : e.attr? styleKept = none) : unpaint e = e := by
  rw [unpaint, hkept]

/-- The later paint is the only one. -/
theorem paint_paint (t t' : Theme) (e : Element) : paint t (paint t' e) = paint t e := by
  cases hshape : isShape e with
  | false => rw [(changesShapes_paint t').eq_self e hshape]
  | true =>
      have hne : "style" ≠ styleKept := by decide
      have hkept : ((paint t' e).attr? styleKept).isSome = true := by
        rw [paint, if_pos hshape, attr?_setAttr_of_ne hne]
        split_ifs with h
        · exact h
        · rw [attr?_setAttr_self]
          rfl
      rw [paint, isShape_paint, if_pos hshape, if_pos hkept, paint, if_pos hshape, paint,
        if_pos hshape, setAttr_setAttr]

end Shapes

/-! ### What a node shows -/

/-- How a highlighted node looks: the colours, the names of inputs and the variables. -/
structure Look where
  theme : Theme
  inputs : List String
  bindings : List Binding

/-- The paint of a node that has a look or none. -/
def dye : Option Look → Element → Element
  | none => id
  | some look => paint look.theme

/-- Giving a look to shapes, or taking it away, changes shapes alone. -/
theorem changesShapes_dye (look : Option Look) : ChangesShapes (dye look) := by
  cases look with
  | none => exact changesShapes_id
  | some look => exact changesShapes_paint look.theme

/-- What is a shape stays one in every look. -/
theorem isShape_dye (look : Option Look) (e : Element) : isShape (dye look e) = isShape e := by
  cases look with
  | none => rfl
  | some look => exact isShape_paint look.theme e

/-- A look changes no attribute but the style and the style that is kept. -/
theorem attr?_dye_of_ne {key : String} (h : "style" ≠ key) (h' : styleKept ≠ key)
    (look : Option Look) (e : Element) : (dye look e).attr? key = e.attr? key := by
  cases look with
  | none => rfl
  | some look => exact attr?_paint_of_ne h h' look.theme e

/-- Whether an empty style was lost before makes no difference. -/
theorem bare_dye (look : Option Look) {e : Element} (hkept : e.attr? styleKept = none) :
    bare (dye look (shed e)) = bare (dye look e) := by
  have hdrop : (shed e).dropAttr "style" = e.dropAttr "style" := by
    rw [shed]
    split_ifs
    · exact dropAttr_dropAttr e "style"
    · rfl
  cases look with
  | none => exact bare_congr (styleOf_shed e) (congrArg (·.dropAttr textKept) hdrop)
  | some look =>
      cases hshape : isShape e with
      | false => rw [changesShapes_shed.eq_self e hshape]
      | true =>
          have hshape' : isShape (shed e) = true := (isShape_shed e).trans hshape
          have hkept' : (shed e).attr? styleKept = none := by
            rw [attr?_shed_of_ne (by decide), hkept]
          rw [dye, paint_of_isShape _ hshape hkept, paint_of_isShape _ hshape' hkept', styleOf_shed]
          refine bare_congr (by simp [styleOf]) ?_
          have hne : styleKept ≠ "style" := by decide
          have hne' : styleKept ≠ textKept := by decide
          simp only [dropAttr_setAttr_self, dropAttr_setAttr_of_ne hne, dropAttr_setAttr_of_ne hne',
            hdrop]

end Flowchart
