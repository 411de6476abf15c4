import Flowchart.Proofs.Json.Fields
import Flowchart.Svg.Element

/-!
# Attributes of elements

Setting, removing and reading the attributes of an element. An attribute that is set anew has the new
value only, one that is set to the value it has stays as it is, and one that is removed leaves nothing
behind. Attributes of different names do not touch each other.

Elements are lists of attributes as they are read, so an attribute keeps its place when it gets a
new value and a new one comes last. The lemmas are those of named values (`get?_put_self` and
its like), said of elements, so that later modules never look into the list.
-/

namespace Flowchart

namespace Element

variable {key other : String} {value : String}

/-- An attribute that is set has its value. -/
@[simp] theorem attr?_setAttr_self (e : Element) (key value : String) :
    (e.setAttr key value).attr? key = some value := get?_put_self _ _ _

/-- Other attributes keep theirs. -/
theorem attr?_setAttr_of_ne (h : key ≠ other) (e : Element) (value : String) :
    (e.setAttr key value).attr? other = e.attr? other := get?_put_of_ne h _ _

/-- An attribute that is set twice has the later value. -/
@[simp] theorem setAttr_setAttr (e : Element) (key value value' : String) :
    (e.setAttr key value).setAttr key value' = e.setAttr key value' :=
  congrArg (fun attrs => { e with attrs := attrs }) (put_put e.attrs key value value')

/-- An attribute that has the value already is not changed. -/
theorem setAttr_of_attr? {e : Element} (h : e.attr? key = some value) : e.setAttr key value = e := by
  obtain ⟨tag, attrs, text, tail, children⟩ := e
  rw [setAttr, put_of_get? h]

/-- An attribute that is removed has no value. -/
@[simp] theorem attr?_dropAttr_self (e : Element) (key : String) :
    (e.dropAttr key).attr? key = none := get?_filter_self _ _

/-- Removing one leaves the others. -/
theorem attr?_dropAttr_of_ne (h : key ≠ other) (e : Element) :
    (e.dropAttr key).attr? other = e.attr? other := get?_filter_of_ne h _

/-- Removing an attribute that is not there changes nothing. -/
theorem dropAttr_of_attr?_eq_none {e : Element} (h : e.attr? key = none) : e.dropAttr key = e := by
  obtain ⟨tag, attrs, text, tail, children⟩ := e
  rw [dropAttr, filter_of_get?_eq_none h]

/-- An attribute that is removed twice is removed. -/
@[simp] theorem dropAttr_dropAttr (e : Element) (key : String) :
    (e.dropAttr key).dropAttr key = e.dropAttr key :=
  dropAttr_of_attr?_eq_none (attr?_dropAttr_self e key)

/-- Setting an attribute before it is removed makes no difference. -/
@[simp] theorem dropAttr_setAttr_self (e : Element) (key value : String) :
    (e.setAttr key value).dropAttr key = e.dropAttr key :=
  congrArg (fun attrs => { e with attrs := attrs }) (filter_put_self e.attrs key value)

/-- Setting one attribute and removing another can be done in either order. -/
theorem dropAttr_setAttr_of_ne (h : key ≠ other) (e : Element) (value : String) :
    (e.setAttr key value).dropAttr other = (e.dropAttr other).setAttr key value :=
  congrArg (fun attrs => { e with attrs := attrs }) (filter_put_of_ne h e.attrs value)

end Element

end Flowchart
