import Flowchart.Text.Utf8

/-!
# Concrete syntax trees

What a grammar gives for a source text: every node has a kind, the bytes it covers, the row it starts
in, and its children in order. A node may be anonymous (a token without a name), missing (inserted to
repair the text) or hold an error; a child may fill a named field of its parent.
-/

namespace Flowchart

/-- A concrete syntax tree. -/
structure ConcreteTree where
  kind : String
  /-- The first byte and the byte after the last. -/
  start : Nat
  stop : Nat
  /-- The row the node starts in, counted from zero. -/
  row : Nat
  isNamed : Bool := true
  isMissing : Bool := false
  hasError : Bool := false
  field : Option String := none
  children : List ConcreteTree := []

namespace ConcreteTree

instance : Inhabited ConcreteTree := ⟨⟨"", 0, 0, 0, true, false, false, none, []⟩⟩

/-- The line a node starts on, counted from one. -/
def line (t : ConcreteTree) : Int := (t.row : Int) + 1

/-- The children with a name. -/
def namedChildren (t : ConcreteTree) : List ConcreteTree := t.children.filter (·.isNamed)

/-- The first child that fills a field. -/
def child? (t : ConcreteTree) (field : String) : Option ConcreteTree :=
  t.children.find? fun c => c.field == some field

/-- All children that fill a field. -/
def childrenIn (t : ConcreteTree) (field : String) : List ConcreteTree :=
  t.children.filter fun c => c.field == some field

mutual
/-- The number of levels of a tree. -/
def height : ConcreteTree → Nat
  | ⟨_, _, _, _, _, _, _, _, children⟩ => heightOfAll children + 1

/-- The number of levels of the highest of some trees. -/
def heightOfAll : List ConcreteTree → Nat
  | [] => 0
  | t :: ts => max (height t) (heightOfAll ts)
end

mutual
/-- The first node, in reading order, that is an error or was inserted. Subtrees without an error are
passed over. -/
def firstError? : ConcreteTree → Option ConcreteTree
  | t@⟨kind, _, _, _, _, isMissing, hasError, _, children⟩ =>
    if kind == "ERROR" || isMissing then some t
    else if hasError then firstErrorOf? children
    else none

/-- The first such node of some trees. -/
def firstErrorOf? : List ConcreteTree → Option ConcreteTree
  | [] => none
  | t :: ts =>
    match firstError? t with
    | some e => some e
    | none => firstErrorOf? ts
end

/-- The text of the bytes from `start` up to `stop`. -/
def slice (source : List UInt8) (start stop : Nat) : List Char :=
  Text.Utf8.decodeReplacing ((source.take stop).drop start)

/-- The text a node covers. -/
def text (source : List UInt8) (t : ConcreteTree) : List Char := slice source t.start t.stop

end ConcreteTree

end Flowchart
