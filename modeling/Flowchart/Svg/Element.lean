import Flowchart.Json.Basic
import Flowchart.Text.Blank

/-!
# Elements of a drawing

A drawing is a tree of elements. An element has a tag, which may start with a namespace in braces,
attributes, the text before its first child, its children, and the text after it (`tail`). A comment
is an element without a tag. Absent text differs from empty text.

A `Path` leads from an element down to another one by the places of children, counted from zero.
-/

namespace Flowchart

/-- An element of a drawing. -/
structure Element where
  tag : Option String
  attrs : List (String × String) := []
  text : Option String := none
  tail : Option String := none
  children : List Element := []

instance : Inhabited Element := ⟨⟨none, [], none, none, []⟩⟩

/-- The way from an element down to another. -/
abbrev Path := List Nat

/-- What follows the last closing brace of a text, all of it if there is none. -/
def afterBrace (cs : List Char) : List Char := (cs.reverse.takeWhile (· != '\x7d')).reverse

/-- A tag without its namespace. -/
def localName (tag : String) : String := String.ofList (afterBrace tag.toList)

/-- The namespace of a tag with its braces, empty if there is none. -/
def namespaceOf (tag : String) : String :=
  match tag.toList with
  | '\x7b' :: cs =>
    if cs.contains '\x7d' then String.ofList ('\x7b' :: cs.takeWhile (· != '\x7d') ++ ['\x7d'])
    else ""
  | _ => ""

namespace Element

/-- The tag without its namespace; empty for a comment. -/
def name (e : Element) : String := (e.tag.map localName).getD ""

/-- The value of an attribute. -/
def attr? (e : Element) (key : String) : Option String := get? e.attrs key

/-- Sets an attribute. -/
def setAttr (e : Element) (key value : String) : Element :=
  { e with attrs := put e.attrs key value }

/-- Removes an attribute. -/
def dropAttr (e : Element) (key : String) : Element :=
  { e with attrs := e.attrs.filter fun a => a.1 != key }

/-- Whether the element is of a class. -/
def hasClass (e : Element) (cls : String) : Bool :=
  (Text.words ((e.attr? "class").getD "").toList).contains cls.toList

mutual
/-- The text of an element and of everything in it, tails between included. -/
def content : Element → String
  | ⟨_, _, text, _, children⟩ => text.getD "" ++ contentOfAll children

/-- The text of elements in a row, each with its tail. -/
def contentOfAll : List Element → String
  | [] => ""
  | e :: es => content e ++ e.tail.getD "" ++ contentOfAll es
end

mutual
/-- Changes an element and everything in it. -/
def mapAll (f : Element → Element) : Element → Element
  | ⟨tag, attrs, text, tail, children⟩ => f ⟨tag, attrs, text, tail, mapEach f children⟩

/-- Changes some elements and everything in them. -/
def mapEach (f : Element → Element) : List Element → List Element
  | [] => []
  | e :: es => mapAll f e :: mapEach f es
end

mutual
/-- The element and everything in it in document order, with the way to each. `here` is the way to
the element itself, reversed. -/
def walk (here : Path) : Element → List (Path × Element)
  | ⟨tag, attrs, text, tail, children⟩ =>
    (here.reverse, ⟨tag, attrs, text, tail, children⟩) :: walkAll here 0 children

/-- The same for the children of the element at `here`, the first of which is at place `i`. -/
def walkAll (here : Path) (i : Nat) : List Element → List (Path × Element)
  | [] => []
  | e :: es => walk (i :: here) e ++ walkAll here (i + 1) es
end

/-- An element and everything in it in document order, with the way to each. -/
def descendants (e : Element) : List (Path × Element) := walk [] e

/-- The way to the first element in document order that has a property. -/
def find? (p : Element → Bool) (e : Element) : Option Path :=
  (e.descendants.find? fun d => p d.2).map (·.1)

/-- The element at the end of a way. -/
def at? (e : Element) : Path → Option Element
  | [] => some e
  | i :: path =>
    match e.children[i]? with
    | some c => c.at? path
    | none => none

/-- Changes the element at the end of a way, if there is one. -/
def modifyAt (e : Element) : Path → (Element → Element) → Element
  | [], f => f e
  | i :: path, f => { e with children := e.children.modify i fun c => c.modifyAt path f }

/-! ### Labels -/

/-- The way down from an element as long as it has a single child that is no line break. -/
def descend : Element → Path
  | ⟨_, _, _, _, [c]⟩ => if c.name == "br" then [] else 0 :: descend c
  | _ => []

/-- The way to the innermost element that carries the label of a node: in a label element the first
paragraph, else the last of its single children; without a label element the first text. -/
def label? (e : Element) : Option Path :=
  match e.descendants.find? fun d => d.2.hasClass "nodeLabel" || d.2.name == "foreignObject" with
  | some (path, label) =>
    match label.find? fun d => d.name == "p" with
    | some inner => some (path ++ inner)
    | none => some (path ++ label.descend)
  | none => e.find? fun d => d.name == "text"

end Element

end Flowchart
