/-!
# Abstract syntax trees

What the parser of an indented language gives for a source text. Only what drawing needs is kept of a
node: its kind, where it stands, its parts, and for a constant whether it is a text.
-/

namespace Flowchart

/-- Where a node stands: lines from one, columns in bytes from zero. The end may be unknown. -/
structure Span where
  line : Int
  column : Int
  endLine : Option Int
  endColumn : Option Int
  deriving DecidableEq, Repr

/-- An abstract syntax tree. -/
inductive AbstractTree where
  /-- An expression, a pattern or a statement without a body. `value` is the expression of an
  expression statement, `inner` the pattern inside a capture. -/
  | leaf (kind : String) (span : Option Span) (value inner : Option AbstractTree) (isText : Bool)
  /-- A statement, a handler or a case with a body. `head` is its condition, exception type or
  pattern. -/
  | compound (kind : String) (span : Option Span) (name : String) (head guard : Option AbstractTree)
      (body orelse handlers finalbody : List AbstractTree)
  /-- A choice between patterns. -/
  | matching (kind : String) (span : Option Span) (subject : AbstractTree)
      (cases : List AbstractTree)

namespace AbstractTree

instance : Inhabited AbstractTree := ⟨.leaf "" none none none false⟩

/-- The kind of a node. -/
def kind : AbstractTree → String
  | .leaf k _ _ _ _ => k
  | .compound k _ _ _ _ _ _ _ _ => k
  | .matching k _ _ _ => k

/-- Where a node stands, if it is known. -/
def span : AbstractTree → Option Span
  | .leaf _ s _ _ _ => s
  | .compound _ s _ _ _ _ _ _ _ => s
  | .matching _ s _ _ => s

/-- The first line of a node, if it is known. -/
def line (t : AbstractTree) : Option Int := t.span.map (·.line)

/-- A constant that is a text. -/
def isTextConstant : AbstractTree → Bool
  | .leaf k _ _ _ isText => k == "Constant" && isText
  | _ => false

/-- A pattern that takes everything: a capture without an inner pattern. -/
def isCapture : AbstractTree → Bool
  | .leaf k _ _ inner _ => k == "MatchAs" && inner.isNone
  | _ => false

end AbstractTree

end Flowchart
