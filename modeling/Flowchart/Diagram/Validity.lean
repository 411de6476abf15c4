import Flowchart.Text.Blank
import Flowchart.Text.Lines
import Flowchart.Text.Search

/-!
# Diagram checks

A check of diagram text line by line: there is a flowchart directive, every subgraph is closed and
nothing else is, no line has two edges, and no line has an odd number of double quotes. `check` gives
the first flaw in the order of the lines.

## Lines

Lines are cut at every line break, and blanks at the ends of a line do not count. A comment is passed
over. Whether a line opens or closes a subgraph is told by its first word or by the whole of it, so the
check knows nothing of nodes and labels. The directive is looked for with blanks of all kinds in it, at
the starts of lines that end at a line feed.
-/

namespace Flowchart.Diagram

/-- What can be wrong with diagram text. -/
inductive Flaw where
  | empty
  | noDirective
  | unbalancedSubgraphs
  | severalEdges
  | unbalancedQuotes (line : String)
  deriving DecidableEq, Repr

/-- The wording of a flaw. -/
def Flaw.message : Flaw → String
  | .empty => "Empty flowchart"
  | .noDirective => "Missing flowchart declaration"
  | .unbalancedSubgraphs => "Unbalanced subgraph/end"
  | .severalEdges => "Multiple edges in one line"
  | .unbalancedQuotes line => "Unbalanced quotes: " ++ line

/-- Whether a flowchart directive stands here: blanks, the keyword, blanks, and a word. -/
def directiveStarts (cs : List Char) : Bool :=
  match "flowchart".toList.isPrefixOf? (cs.dropWhile Text.isBlank) with
  | none => false
  | some rest =>
    rest.head?.any Text.isBlank && Text.wordAt (rest.dropWhile Text.isBlank).head?

/-- Whether some line starts with a flowchart directive; `atStart` says that a line starts here. -/
def hasDirective : (atStart : Bool) → List Char → Bool
  | _, [] => false
  | atStart, c :: cs =>
    (atStart && directiveStarts (c :: cs)) || hasDirective (c == '\n') cs

/-- The number of subgraphs open after a line, or the line's flaw. -/
def checkLine (depth : Nat) (line : List Char) : Except Flaw Nat :=
  let s := Text.trim line
  if "%%".toList.isPrefixOf s then .ok depth
  else
    let depth' : Option Nat :=
      if "subgraph ".toList.isPrefixOf s then some (depth + 1)
      else if s = "end".toList then if depth = 0 then none else some (depth - 1)
      else some depth
    match depth' with
    | none => .error .unbalancedSubgraphs
    | some depth' =>
      if 1 < Text.count "-->".toList s + Text.count "-.->".toList s then .error .severalEdges
      else if s.count '"' % 2 = 1 then .error (.unbalancedQuotes (String.ofList (s.take 60)))
      else .ok depth'

/-- Checks lines one after another with `depth` subgraphs open before them. -/
def checkLines : (depth : Nat) → List (List Char) → Except Flaw Nat
  | depth, [] => .ok depth
  | depth, line :: lines =>
    match checkLine depth line with
    | .error flaw => .error flaw
    | .ok depth => checkLines depth lines

/-- The first flaw of a diagram text. -/
def check (text : String) : Except Flaw Unit :=
  let cs := text.toList
  if Text.allBlank cs then .error .empty
  else if !hasDirective true cs then .error .noDirective
  else
    match checkLines 0 (Text.lines cs) with
    | .error flaw => .error flaw
    | .ok depth => if depth = 0 then .ok () else .error .unbalancedSubgraphs

end Flowchart.Diagram
