import Flowchart.Proofs.Highlight.Shapes
import Mathlib.Data.List.TakeWhile

/-!
# Texts of labels

A label that gets values in its text keeps its first text in an attribute, and with it everything that
is needed later: new values are put into the first text, never into a text that has values already
(`Keeps.inject_eq`), and the label is restored to what it was first (`Keeps.restore_eq`).

The parts that are put into a label are no shapes and have no style of highlighted shapes
(`LabelPart.isShape_eq_false`, `LabelPart.style_ne`).

## Main results

* `Keeps.inject_eq`: values are put into the first text, whatever the label shows.
* `Keeps.restore_eq`: restoring a label gives what it was first.
* `LabelPart.isShape_eq_false`, `LabelPart.style_ne`: the parts put in are nothing that is painted.
-/

namespace Flowchart

open Element

/-- The text after a namespace is the whole name. -/
theorem localName_append (tag : String) {name : String} (h : '\x7d' ∉ name.toList) :
    localName (namespaceOf tag ++ name) = name := by
  have hname : ∀ c ∈ name.toList.reverse, (c != '\x7d') = true := fun c hc => by
    rw [bne_iff_ne]
    rintro rfl
    exact h (List.mem_reverse.mp hc)
  have hlast : ∀ start : List Char,
      afterBrace (start ++ '\x7d' :: name.toList) = name.toList := fun start => by
    rw [afterBrace, List.reverse_append, List.reverse_cons, List.append_assoc,
      List.takeWhile_append_of_pos hname]
    simp
  have hall : afterBrace name.toList = name.toList := by
    rw [afterBrace, List.takeWhile_eq_self_iff.mpr hname, List.reverse_reverse]
  have hspace : (namespaceOf tag).toList = [] ∨
      ∃ start, (namespaceOf tag).toList = start ++ ['\x7d'] := by
    rw [namespaceOf]
    split
    · split_ifs
      · exact Or.inr ⟨_, String.toList_ofList⟩
      · exact Or.inl rfl
    · exact Or.inl rfl
  rw [localName, String.toList_append]
  rcases hspace with hspace | ⟨start, hspace⟩
  · rw [hspace, List.nil_append, hall, String.ofList_toList]
  · rw [hspace, List.append_assoc, List.singleton_append, hlast, String.ofList_toList]

/-! ### Parts of labels -/

/-- A value in a label or the note below it. -/
structure LabelPart (t : Theme) (label part : Element) : Prop where
  children_eq : part.children = []
  tag_eq : part.tag = some (partTag label "span") ∨ part.tag = some (partTag label "div")
  attrs_eq : part.attrs = [("style", t.valueStyle)] ∨
    part.attrs = [("class", "annotation-div"), ("style", t.noteStyle)]

section LabelPart

variable {t : Theme} {label part : Element}

/-- A part of a label is no shape. -/
theorem LabelPart.isShape_eq_false (h : LabelPart t label part) : isShape part = false := by
  have hname : ∀ page : String, '\x7d' ∉ page.toList →
      localName (partTag label page) = "tspan" ∨ localName (partTag label page) = page := by
    intro page hpage
    rw [partTag]
    split_ifs
    · exact Or.inl (localName_append _ (by decide))
    · exact Or.inr (localName_append _ hpage)
  have hspan := hname "span" (by decide)
  have hdiv := hname "div" (by decide)
  have hpart : part.name = "tspan" ∨ part.name = "span" ∨ part.name = "div" := by
    rw [Element.name]
    rcases h.tag_eq with htag | htag <;> rw [htag]
    · exact hspan.imp id Or.inl
    · exact hdiv.imp id Or.inr
  rw [isShape]
  rcases hpart with hpart | hpart | hpart <;> rw [hpart] <;> decide

/-- A part of a label has no style of highlighted shapes. -/
theorem LabelPart.style_ne (h : LabelPart t label part) (t' : Theme) :
    part.attr? "style" ≠ some t'.shapeStyle := by
  rw [attr?]
  rcases h.attrs_eq with hattrs | hattrs <;> rw [hattrs] <;> cases t <;> cases t' <;> decide

/-- A part of a label keeps no text of its own. -/
theorem LabelPart.attr?_textKept (h : LabelPart t label part) : part.attr? textKept = none := by
  rw [attr?]
  rcases h.attrs_eq with hattrs | hattrs <;> rw [hattrs] <;> rfl

end LabelPart

/-- A label with values in it has its tag, its tail and its attributes, and nothing but parts below. -/
theorem exists_inject_eq (t : Theme) (inputs : List String) (bindings : List Binding)
    (label : Element) :
    ∃ text parts, inject t inputs bindings label =
        { label.setAttr textKept ((label.attr? textKept).getD label.content) with
          text := some text, children := parts } ∧
      ∀ part ∈ parts, LabelPart t label part := by
  refine ⟨_, _, rfl, fun part hpart => ?_⟩
  rcases List.mem_append.mp hpart with hpart | hpart
  · obtain ⟨found, -, rfl⟩ := List.mem_map.mp hpart
    exact ⟨rfl, Or.inl rfl, Or.inl rfl⟩
  · split at hpart
    · exact absurd hpart List.not_mem_nil
    · rw [List.mem_singleton.mp hpart]
      exact ⟨rfl, Or.inr rfl, Or.inr rfl⟩

/-! ### Keeping and restoring -/

/-- A label with its text kept in it. -/
def keepText (label : Element) : Element := label.setAttr textKept label.content

/-- `label` is `first`, but for what is in it, with the text of `first` kept in it. -/
structure Keeps (first label : Element) : Prop where
  tag_eq : label.tag = first.tag
  tail_eq : label.tail = first.tail
  attrs_eq : label.attrs = put first.attrs textKept first.content

/-- A label that keeps its text is what it was first but for that. -/
theorem keeps_keepText (first : Element) : Keeps first (keepText first) := ⟨rfl, rfl, rfl⟩

section Keeps

variable {first label : Element}

/-- The text kept is the first text of the label. -/
theorem Keeps.attr?_textKept (h : Keeps first label) :
    label.attr? textKept = some first.content := by
  rw [attr?, h.attrs_eq]
  exact get?_put_self _ _ _

/-- A label that gets values for the first time keeps its text. -/
theorem keeps_inject (t : Theme) (inputs : List String) (bindings : List Binding)
    (hfirst : first.attr? textKept = none) : Keeps first (inject t inputs bindings first) := by
  obtain ⟨text, parts, heq, -⟩ := exists_inject_eq t inputs bindings first
  rw [heq, hfirst]
  exact ⟨rfl, rfl, rfl⟩

/-- A label is restored to what it was first, with its text kept. -/
theorem Keeps.restore_eq (h : Keeps first label) : restore first label = keepText first := by
  rw [restore, h.attr?_textKept]
  simp only [h.tag_eq, h.tail_eq]
  rfl

/-- Values are put into the first text. -/
theorem Keeps.inject_eq (h : Keeps first label) (t : Theme) (inputs : List String)
    (bindings : List Binding) (hfirst : first.attr? textKept = none) :
    inject t inputs bindings label = inject t inputs bindings first := by
  have hplain : (label.attr? textKept).getD label.content = first.content := by
    rw [h.attr?_textKept, Option.getD_some]
  have hplain' : (first.attr? textKept).getD first.content = first.content := by
    rw [hfirst, Option.getD_none]
  obtain ⟨tag, attrs, text, tail, children⟩ := label
  obtain ⟨rfl, rfl, rfl⟩ := h
  simp only [inject, hplain, hplain', setAttr, put_put]
  rfl

end Keeps

end Flowchart
