import Flowchart.Proofs.Highlight.Looks
import Flowchart.Proofs.Svg.Substitution
import Mathlib.Data.List.Forall2

/-!
# Values in labels

What a label with values in it shows. Its text is the plain text of the label with values in the place of
names: the label keeps the chunks between the names, in order, and nothing is lost or added. Below the
text a note lists the variables that are inputs or are assigned in it, if there are any (`Lettered`).
A label that gets values shows them so, whatever it showed before (`lettered_inject`).

A label goes on to show its values while something is painted in the drawing, be it the label, something
in it or around it (`Lettered.congr`, `Repaints.exists_sameText`): painting leaves texts alone, and the
parts of a label are no shapes.

## Longest names first

Names may be parts of each other, and one may be read where another stands. At each place the longest
name that stands there is taken, and reading goes on behind it. So the parts of a text with values are
determined by the text and by the set of names, whatever their order (`Replaces.congr`). The empty name
is none of them: it would stand everywhere.

## Main results

* `Lettered.text_eq`: the parts of a label with values spell its plain text, names for values.
* `lettered_inject`: a label that gets values shows them, whatever it showed before.
* `Lettered.congr`, `Repaints.exists_sameText`: painting leaves it so.
-/

namespace Flowchart

open Element Substitution

/-! ### What a label shows -/

/-- The text of a label without values: the one that is kept in it, or else what it holds. -/
def plainText (label : Element) : String := (label.attr? textKept).getD label.content

/-- The names of variables. -/
def namesOf (bindings : List Binding) : List (List Char) := bindings.map fun v => v.1.toList

/-- A value in a label, with the text after it. -/
def Look.valuePart (look : Look) (label : Element) (found : List Char × List Char) : Element :=
  ⟨some (partTag label "span"), [("style", look.theme.valueStyle)],
    get? look.bindings (String.ofList found.1), some (String.ofList found.2), []⟩

/-- The note in a label that lists variables. -/
def Look.notePart (look : Look) (label : Element) (listed : List Binding) : Element :=
  ⟨some (partTag label "div"), [("class", "annotation-div"), ("style", look.theme.noteStyle)],
    some (", ".intercalate (listed.map fun v => v.1 ++ " = " ++ v.2)), none, []⟩

/-- The variables that the note lists: those with a name that are inputs or are assigned in the text. -/
def Look.listed (look : Look) (text : String) : List Binding :=
  look.bindings.filter fun v => v.1 ≠ "" ∧ (v.1 ∈ look.inputs ∨ IsAssigned v.1.toList text.toList)

/-- The label shows the text with values in the place of names, and below it the note. -/
def Lettered (look : Look) (text : String) (label : Element) : Prop :=
  ∃ first found, text.toList = first ++ flat found ∧
    Replaces (namesOf look.bindings) [] first found ∧
    (∀ p ∈ found, (get? look.bindings (String.ofList p.1)).isSome = true) ∧
    label.text = some (String.ofList first) ∧
    label.children = found.map (look.valuePart label) ++
      if look.listed text = [] then [] else [look.notePart label (look.listed text)]

/-- A label that has no parts shows the text as it is. -/
theorem Lettered.text_eq {look : Look} {text : String} {x : Element} (h : Lettered look text x)
    (hleaf : x.children = []) : x.text = some text := by
  obtain ⟨first, found, htext, -, -, hfirst, hchildren⟩ := h
  rw [hleaf, eq_comm, List.append_eq_nil_iff, List.map_eq_nil_iff] at hchildren
  have hall : text.toList = first := by
    rw [htext, hchildren.1]
    exact List.append_nil first
  rw [hfirst, ← hall, String.ofList_toList]

section Inject

variable {bindings : List Binding}

/-- The variables that have a name. -/
def named (bindings : List Binding) : List Binding := bindings.filter fun v => !v.1.isEmpty

/-- The empty name has no value. -/
theorem nil_not_mem_namesOf : [] ∉ namesOf (named bindings) := by
  intro hmem
  obtain ⟨v, hv, hnil⟩ := List.mem_map.mp hmem
  have hname : v.1 = "" := String.toList_eq_nil_iff.mp hnil
  simp [named, hname] at hv

/-- Apart from it, all names have. -/
theorem mem_namesOf_named {name : List Char} (hne : name ≠ []) :
    name ∈ namesOf (named bindings) ↔ name ∈ namesOf bindings := by
  simp only [namesOf, named, List.mem_map, List.mem_filter]
  refine exists_congr fun v => and_congr_left fun hv => and_iff_left ?_
  have hname : v.1 ≠ "" := fun heq => hne (by rw [← hv, heq, String.toList_empty])
  simpa using hname

/-- A variable that has a name is found by it. -/
theorem get?_named {name : List Char} (hmem : name ∈ namesOf bindings) (hne : name ≠ []) :
    (get? bindings (String.ofList name)).isSome = true ∧
      get? (named bindings) (String.ofList name) = get? bindings (String.ofList name) := by
  have hfull : String.ofList name ≠ "" := fun heq => hne (String.ofList_eq_empty_iff.mp heq)
  induction bindings with
  | nil => exact absurd hmem List.not_mem_nil
  | cons v rest ih =>
      obtain ⟨n, value⟩ := v
      by_cases hn : n = String.ofList name
      · have hkept : named ((n, value) :: rest) = (n, value) :: named rest :=
          List.filter_cons_of_pos (by simpa [hn] using hne)
        rw [hkept, get?, if_pos hn, get?, if_pos hn]
        exact ⟨rfl, rfl⟩
      · have hrest : name ∈ namesOf rest := by
          refine (List.mem_cons.mp hmem).resolve_left fun heq => hn ?_
          rw [heq, String.ofList_toList]
        obtain ⟨hsome, heq⟩ := ih hrest
        rw [get?, if_neg hn]
        refine ⟨hsome, ?_⟩
        rw [named, List.filter_cons]
        split_ifs
        · rw [get?, if_neg hn]
          exact heq
        · exact heq

/-- The note lists the variables that it is to list. -/
theorem noted_named (look : Look) (text : String) :
    noted look.inputs (named look.bindings) text.toList =
      (look.listed text).map fun v => v.1 ++ " = " ++ v.2 := by
  rw [noted, Look.listed, named, List.filter_filter]
  refine congrArg (List.map _) (List.filter_congr fun v _ => ?_)
  by_cases hname : v.1 = ""
  · simp [hname]
  · have hne : v.1.toList ≠ [] := by simpa using hname
    simp [hname, ← isAssigned_iff hne]

/-- A label that gets values shows them in its text. -/
theorem lettered_inject (look : Look) (label : Element) :
    Lettered look (plainText label) (look.inject label) := by
  have hnil : [] ∉ namesOf (named look.bindings) := nil_not_mem_namesOf
  obtain ⟨htext, hreplaces⟩ := split_spec hnil (plainText label).toList
  set r := split (namesOf (named look.bindings)) (plainText label).toList
  have hreplaces' : Replaces (namesOf look.bindings) [] r.1 r.2 :=
    hreplaces.congr fun n hn => mem_namesOf_named hn
  refine ⟨r.1, r.2, htext, hreplaces', fun p hp => ?_, rfl, ?_⟩
  · obtain ⟨hmem, hne⟩ := hreplaces'.mem p hp
    exact (get?_named hmem hne).1
  · have hvalues : r.2.map (fun p => (⟨some (partTag label "span"),
        [("style", look.theme.valueStyle)],
        some ((get? (named look.bindings) (String.ofList p.1)).getD ""), some (String.ofList p.2),
        []⟩ : Element)) = r.2.map (look.valuePart (look.inject label)) := by
      refine List.map_congr_left fun p hp => ?_
      obtain ⟨hmem, hne⟩ := hreplaces'.mem p hp
      obtain ⟨hsome, heq⟩ := get?_named hmem hne
      obtain ⟨value, hvalue⟩ := Option.isSome_iff_exists.mp hsome
      rw [Look.valuePart, heq, hvalue]
      rfl
    refine congrArg₂ HAppend.hAppend hvalues ?_
    -- the note is there if there is something to list
    have hnoted := noted_named look (plainText label)
    split
    next hnone =>
      exact (if_pos (List.map_eq_nil_iff.mp (hnoted.symm.trans hnone))).symm
    next lines hsome =>
      have hlisted : look.listed (plainText label) ≠ [] := fun hempty =>
        hsome (hnoted.trans (by rw [hempty]; rfl))
      rw [if_neg hlisted, Look.notePart, ← hnoted]
      rfl

end Inject

/-! ### Text under painting -/

/-- What elements say depends on what each of them says. -/
theorem contentOfAll_congr {es es' : List Element}
    (h : List.Forall₂ (fun e e' => e'.content = e.content ∧ e'.tail = e.tail) es es') :
    contentOfAll es' = contentOfAll es := by
  induction h with
  | nil => rfl
  | cons he _ ih => rw [contentOfAll, contentOfAll, he.1, he.2, ih]

/-- A list corresponds to the list with one element changed, if the element does. -/
theorem forall₂_modify {α : Type} {R : α → α → Prop} {g : α → α} (hself : ∀ x, R x x)
    (hg : ∀ x, R x (g x)) (l : List α) (i : Nat) : List.Forall₂ R l (l.modify i g) := by
  induction l generalizing i with
  | nil => rw [List.modify_nil]; exact .nil
  | cons x l ih =>
      cases i with
      | zero => exact .cons (hg x) (List.forall₂_same.mpr fun y _ => hself y)
      | succ i => exact .cons (hself x) (ih i)

/-- An element says its text and then what is in it. -/
theorem content_eq (e : Element) : e.content = e.text.getD "" ++ contentOfAll e.children := by
  obtain ⟨tag, attrs, text, tail, children⟩ := e
  rw [content]

/-- A change of shapes that leaves everything of an element as it is but its attributes, and among these
the text that is kept. -/
structure Repaints (f : Element → Element) : Prop extends ChangesShapes f where
  tag_eq : ∀ e, (f e).tag = e.tag
  text_eq : ∀ e, (f e).text = e.text
  tail_eq : ∀ e, (f e).tail = e.tail
  kept_eq : ∀ e, (f e).attr? textKept = e.attr? textKept

/-- Painting repaints. -/
theorem repaints_paint (t : Theme) : Repaints (paint t) where
  toChangesShapes := changesShapes_paint t
  tag_eq := fun e => by simp only [paint]; split_ifs <;> rfl
  text_eq := fun e => by simp only [paint]; split_ifs <;> rfl
  tail_eq := fun e => by simp only [paint]; split_ifs <;> rfl
  kept_eq := attr?_paint_of_ne (by decide) (by decide) t

/-- Giving an element its style back either does nothing or drops and sets styles. -/
theorem unpaint_cases (e : Element) : unpaint e = e ∨
    unpaint e = (e.dropAttr styleKept).dropAttr "style" ∨
    ∃ style, unpaint e = (e.dropAttr styleKept).setAttr "style" style := by
  rw [unpaint]
  split
  · exact Or.inl rfl
  · dsimp only
    split_ifs
    · exact Or.inr (Or.inl rfl)
    · exact Or.inr (Or.inr ⟨_, rfl⟩)
    · exact Or.inl rfl

/-- Undoing a paint repaints. -/
theorem repaints_unpaint : Repaints unpaint where
  toChangesShapes := changesShapes_unpaint
  tag_eq := fun e => by rcases unpaint_cases e with h | h | ⟨_, h⟩ <;> rw [h] <;> rfl
  text_eq := fun e => by rcases unpaint_cases e with h | h | ⟨_, h⟩ <;> rw [h] <;> rfl
  tail_eq := fun e => by rcases unpaint_cases e with h | h | ⟨_, h⟩ <;> rw [h] <;> rfl
  kept_eq := fun e => by
    have hstyle : "style" ≠ textKept := by decide
    have hkept : styleKept ≠ textKept := by decide
    rcases unpaint_cases e with h | h | ⟨_, h⟩
    · rw [h]
    · rw [h, attr?_dropAttr_of_ne hstyle, attr?_dropAttr_of_ne hkept]
    · rw [h, attr?_setAttr_of_ne hstyle, attr?_dropAttr_of_ne hkept]

section Repaint

variable {f : Element → Element}

/-- Repainting changes nothing of what an element says. -/
theorem Repaints.content_mapAll (hf : Repaints f) (e : Element) :
    (mapAll f e).content = e.content ∧ (mapAll f e).tail = e.tail := by
  induction e using Element.induction with
  | h e ih =>
      refine ⟨?_, by rw [mapAll_eq, hf.tail_eq]⟩
      have htext : (mapAll f e).text = e.text := by rw [mapAll_eq, hf.text_eq]
      rw [content_eq, content_eq, htext, children_mapAll hf.shallow]
      refine congrArg _ (contentOfAll_congr (List.forall₂_map_right_iff.mpr ?_))
      exact List.forall₂_same.mpr ih

/-- Repainting a part of it does not either. -/
theorem Repaints.content_modifyAt (hf : Repaints f) (e : Element) (p : Path) :
    (e.modifyAt p (mapAll f)).content = e.content ∧
      (e.modifyAt p (mapAll f)).tail = e.tail := by
  induction p generalizing e with
  | nil => exact hf.content_mapAll e
  | cons i p ih =>
      rw [modifyAt_cons]
      refine ⟨?_, rfl⟩
      rw [content_eq, content_eq e]
      exact congrArg _ (contentOfAll_congr (forall₂_modify (fun _ => ⟨rfl, rfl⟩) ih e.children i))

/-- What painting leaves of an element: its text, and the parts of a label in it. -/
structure SameText (x x' : Element) : Prop where
  tag_eq : x'.tag = x.tag
  text_eq : x'.text = x.text
  plain_eq : plainText x' = plainText x
  children_eq : (∀ c ∈ x.children, c.children = [] ∧ isShape c = false) → x'.children = x.children

/-- An element has its own text. -/
theorem SameText.refl (x : Element) : SameText x x := ⟨rfl, rfl, rfl, fun _ => rfl⟩

/-- In an element without others there is no place but its own. -/
theorem at?_of_leaf {c : Element} (h : c.children = []) {p : Path} {y : Element}
    (hy : c.at? p = some y) : y = c := by
  cases p with
  | nil => exact (Option.some.inj hy).symm
  | cons i p =>
      rw [at?_cons, h] at hy
      exact absurd hy (by simp)

/-- An element without others that is no shape is not repainted. -/
theorem Repaints.mapAll_leaf (hf : Repaints f) {c : Element} (hleaf : c.children = [])
    (hshape : isShape c = false) : mapAll f c = c :=
  hf.mapAll_eq_self fun p y hy => by
    rw [at?_of_leaf hleaf hy]
    exact hshape

/-- A label that is repainted has the same text. -/
theorem Repaints.sameText_mapAll (hf : Repaints f) (x : Element) : SameText x (mapAll f x) where
  tag_eq := by rw [mapAll_eq, hf.tag_eq]
  text_eq := by rw [mapAll_eq, hf.text_eq]
  plain_eq := by
    have hkept : (mapAll f x).attr? textKept = x.attr? textKept := by
      rw [mapAll_eq, hf.kept_eq]
      rfl
    rw [plainText, plainText, hkept, (hf.content_mapAll x).1]
  children_eq := fun hleaves => by
    rw [children_mapAll hf.shallow]
    refine (List.map_congr_left fun c hc => ?_).trans (List.map_id _)
    exact hf.mapAll_leaf (hleaves c hc).1 (hleaves c hc).2

/-- So has one of which a part is repainted. -/
theorem Repaints.sameText_modifyAt (hf : Repaints f) (x : Element) (p : Path) :
    SameText x (x.modifyAt p (mapAll f)) := by
  cases p with
  | nil => exact hf.sameText_mapAll x
  | cons i p =>
      have hcontent := (hf.content_modifyAt x (i :: p)).1
      refine ⟨by rw [modifyAt_cons], by rw [modifyAt_cons], ?_, fun hleaves => ?_⟩
      · rw [plainText, plainText, hcontent, modifyAt_cons]
        rfl
      · refine congrArg Element.children (modifyAt_eq_self fun y hy => ?_)
        rw [at?_cons] at hy
        obtain ⟨c, hc, hat⟩ := Option.bind_eq_some_iff.mp hy
        obtain ⟨hleaf, hshape⟩ := hleaves c (List.mem_of_getElem? hc)
        rw [at?_of_leaf hleaf hat]
        exact hf.mapAll_leaf hleaf hshape

/-- Painting somewhere in a drawing leaves the text of every element. -/
theorem Repaints.exists_sameText (hf : Repaints f) {d x : Element} {p : Path}
    (hx : d.at? p = some x) (q : Path) :
    ∃ x', (d.modifyAt q (mapAll f)).at? p = some x' ∧ SameText x x' := by
  by_cases hqp : q <+: p
  · obtain ⟨r, rfl⟩ := hqp
    rw [at?_append] at hx
    obtain ⟨y, hy, hyx⟩ := Option.bind_eq_some_iff.mp hx
    rw [at?_modifyAt_append, hy, Option.map_some, Option.bind_some, at?_mapAll hf.shallow, hyx]
    exact ⟨_, rfl, hf.sameText_mapAll x⟩
  · by_cases hpq : p <+: q
    · obtain ⟨r, rfl⟩ := hpq
      rw [modifyAt_append, at?_modifyAt_self, hx]
      exact ⟨_, rfl, hf.sameText_modifyAt x r⟩
    · rw [at?_modifyAt_of_apart d _ hqp hpq, hx]
      exact ⟨x, rfl, SameText.refl x⟩

end Repaint

/-- The parts of a label are of its kind. -/
theorem partTag_congr {x x' : Element} (htag : x'.tag = x.tag) : partTag x' = partTag x := by
  funext page
  rw [partTag, partTag, isDrawnText, isDrawnText, Element.name, Element.name, htag]

/-- A label that shows a text goes on to show it while it is painted. -/
theorem Lettered.congr {look : Look} {text : String} {x x' : Element} (h : Lettered look text x)
    (hsame : SameText x x') : Lettered look text x' := by
  obtain ⟨first, found, htext, hreplaces, hvalues, hfirst, hchildren⟩ := h
  have hvalue : look.valuePart x' = look.valuePart x := by
    funext p
    rw [Look.valuePart, Look.valuePart, partTag_congr hsame.tag_eq]
  have hnote : look.notePart x' = look.notePart x := by
    funext listed
    rw [Look.notePart, Look.notePart, partTag_congr hsame.tag_eq]
  have hparts : ∀ c ∈ x.children, LabelPart look.theme x c := by
    intro c hc
    rw [hchildren, List.mem_append] at hc
    rcases hc with hc | hc
    · obtain ⟨p, -, rfl⟩ := List.mem_map.mp hc
      exact ⟨rfl, Or.inl rfl, Or.inl rfl⟩
    · split_ifs at hc
      · exact absurd hc List.not_mem_nil
      · rw [List.mem_singleton.mp hc]
        exact ⟨rfl, Or.inr rfl, Or.inr rfl⟩
  refine ⟨first, found, htext, hreplaces, hvalues, hsame.text_eq.trans hfirst, ?_⟩
  rw [hsame.children_eq fun c hc => ⟨(hparts c hc).children_eq, (hparts c hc).isShape_eq_false⟩,
    hvalue, hnote]
  exact hchildren

end Flowchart
