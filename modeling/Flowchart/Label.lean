import Flowchart.Log
import Flowchart.Text.Blank

/-!
# Labels

Text that goes between double quotes in a diagram. `Label.sanitize` takes the control characters
out, writes every run of blanks as one space, cuts the text to a limit, and then escapes it in one of
two modes:

* *lenient*: the HTML specials become entities, a double quote becomes an apostrophe and a backslash
  is doubled; brackets stay readable;
* *strict*: every character that diagram text gives a meaning to becomes its full-width lookalike,
  so that the label reads the same and holds none of them.
-/

namespace Flowchart

/-- How a label is escaped. -/
inductive LabelMode where
  | lenient
  | strict
  deriving DecidableEq, Repr

namespace LabelMode

/-- The name of a mode. -/
def name : LabelMode → String
  | .lenient => "lenient"
  | .strict => "strict"

/-- The limit of a mode when none is given. -/
def defaultLimit : LabelMode → Int
  | .lenient => 50
  | .strict => 30

end LabelMode

namespace Label

/-- The control characters of ASCII other than tab, line feed and carriage return. -/
def isControl (c : Char) : Bool :=
  let n := c.toNat
  n ≤ 8 || n == 0x0B || n == 0x0C || (0x0E ≤ n && n ≤ 0x1F) || n == 0x7F

/-- The text without control characters, its words one space apart. -/
def collapse (cs : List Char) : List Char :=
  Text.normalize (cs.filter fun c => !isControl c)

/-- The text cut to `limit` characters, with `ellipsis` after the cut; blanks before the cut go. A
limit of zero or less is no limit. -/
def truncate (limit : Int) (ellipsis cs : List Char) : List Char :=
  if limit ≤ 0 ∨ (cs.length : Int) ≤ limit then cs
  else Text.trimEnd (cs.take limit.toNat) ++ ellipsis

/-- What stands at the end of a text that was cut. -/
def ellipsis : List Char := ['.', '.', '.']

/-- The characters with a meaning of their own in diagram text, and their full-width lookalikes. -/
def lookalikes : List (Char × Char) :=
  [('&', '＆'), ('<', '＜'), ('>', '＞'), ('"', '＂'), ('\'', '＇'), ('(', '（'), (')', '）'),
    ('[', '［'), (']', '］'), ('\x7b', '｛'), ('\x7d', '｝'), (';', '；'), ('#', '＃'), ('|', '｜'),
    ('%', '％'), ('@', '＠'), (':', '：'), ('^', '＾'), ('\\', '＼')]

/-- The full-width lookalike of a character, if it needs one. -/
def lookalike? (c : Char) : Option Char := (lookalikes.find? fun p => p.1 == c).map (·.2)

/-- One character escaped. -/
def escapeChar : LabelMode → Char → List Char
  | .lenient, c =>
    if c = '&' then "&amp;".toList
    else if c = '<' then "&lt;".toList
    else if c = '>' then "&gt;".toList
    else if c = '"' then ['\'']
    else if c = '\\' then ['\\', '\\']
    else [c]
  | .strict, c => [(lookalike? c).getD c]

/-- A text escaped. -/
def escape (mode : LabelMode) (cs : List Char) : List Char := cs.flatMap (escapeChar mode)

/-- Characters that must not stand in a label of the mode. -/
def isProtected : LabelMode → Char → Bool
  | .lenient, c => c == '"' || c == '<' || c == '>'
  | .strict, c => (lookalike? c).isSome

/-- Whether a protected character of the mode occurs. -/
def hasUnescaped (mode : LabelMode) (cs : List Char) : Bool := cs.any (isProtected mode)

/-- The text a label shows: collapsed and cut, not yet escaped. -/
def shown (limit : Int) (cs : List Char) : List Char := truncate limit ellipsis (collapse cs)

/-- The label of a text. -/
def sanitize (mode : LabelMode) (limit : Int) (s : String) : String :=
  String.ofList (escape mode (shown limit s.toList))

/-- The entry of the log for a label that did not come about. -/
def failure (reason : String) : Entry :=
  ⟨.warning, "[WARN] Label sanitize failed (" ++ reason ++ "); falling back to plain text"⟩

/-- The label of something whose text may fail to come about: then the label is empty and the reason
goes to the log. -/
def ofText? (mode : LabelMode) (limit : Int) : Except String String → Logged String
  | .ok s => pure (sanitize mode limit s)
  | .error reason => ⟨"", [failure reason]⟩

/-- The label of a text under a limit that may be of no use: then the label is empty. -/
def within (mode : LabelMode) : (limit : Option Int) → String → String
  | some n, s => sanitize mode n s
  | none, _ => ""

/-- What goes to the log for a label under a limit that is of no use. -/
def uselessLimit : Entry := failure "'<=' not supported between instances of 'list' and 'int'"

end Label

end Flowchart
