import Flowchart.Source.Abstract
import Flowchart.Stmt
import Flowchart.Text.Blank
import Flowchart.Text.Lines
import Flowchart.Text.Utf8

/-!
# Statements of an indented language

Abstract syntax trees become statements. The text of a statement is cut out of the source by the
positions in the tree: `Source.segment` cuts a node, `Source.header` the first line of a statement
with a body. Positions that do not fit the source are a `SourceFault`.

## Lines

A text is cut into lines twice. The positions of a tree count the lines of the parser, and segments are
cut out of those (`Source.counted`). The first line of a statement is looked up among lines that end at
every line break (`Source.lines`). The two differ where a form feed, say, stands in the source.
-/

namespace Flowchart

/-- Why a piece of the source cannot be cut out. -/
inductive SourceFault where
  /-- A node of this kind has no position. -/
  | noPosition (kind : String)
  /-- There is no such line. -/
  | noLine
  /-- The cut goes through a character. -/
  | undecodable (fault : Text.Utf8.Fault)

/-- The wording of a fault. -/
def SourceFault.message : SourceFault → String
  | .noPosition kind => "'" ++ kind ++ "' object has no attribute 'lineno'"
  | .noLine => "list index out of range"
  | .undecodable fault => fault.message

/-- A source text cut into lines in the two ways that are needed: with their ends, where positions
count, and at every line end of Unicode without it. -/
structure Source where
  counted : List (List Char)
  lines : List (List Char)

namespace Source

/-- A source text. -/
def ofString (s : String) : Source := ⟨Text.sourceLines s.toList, Text.lines s.toList⟩

/-- The items from one index to before another; an index below zero counts from the end, and one that
is still outside is moved to the nearer end. -/
def slice {α : Type} (items : List α) (start stop : Int) : List α :=
  let bound (i : Int) : Nat := (if i < 0 then i + items.length else i).toNat
  (items.take (bound stop)).drop (bound start)

/-- The line with an index; an index below zero counts from the end. -/
def countedLine (s : Source) (index : Int) : Except SourceFault (List Char) :=
  let i := if index < 0 then index + s.counted.length else index
  if i < 0 then .error .noLine
  else
    match s.counted[i.toNat]? with
    | some line => .ok line
    | none => .error .noLine

/-- The text of bytes that have to be whole characters. -/
def decode (bytes : List UInt8) : Except SourceFault (List Char) :=
  (Text.Utf8.decode bytes).mapError .undecodable

/-- The text between two positions. -/
def between (s : Source) (span : Span) (endLine endColumn : Int) :
    Except SourceFault (List Char) := do
  let first := span.line - 1
  let last := endLine - 1
  if last = first then
    let bytes := Text.Utf8.encode (← s.countedLine first)
    decode (slice bytes span.column endColumn)
  else
    let bytes := Text.Utf8.encode (← s.countedLine first)
    let start ← decode (slice bytes span.column bytes.length)
    let rest ← decode (slice (Text.Utf8.encode (← s.countedLine last)) 0 endColumn)
    return start ++ (slice s.counted (first + 1) last).flatten ++ rest

/-- The text of a node, empty if its position is not known. -/
def segment (s : Source) (t : AbstractTree) : Except SourceFault String :=
  match t.span with
  | some span =>
    match span.endLine, span.endColumn with
    | some line, some column => (s.between span line column).map String.ofList
    | _, _ => .ok ""
  | none => .ok ""

/-- The text of a node that may be absent. -/
def segmentOf (s : Source) : Option AbstractTree → Except SourceFault String
  | none => .ok ""
  | some t => s.segment t

/-- The position of a node that must have one. -/
def spanOf (t : AbstractTree) : Except SourceFault Span :=
  match t.span with
  | some span => .ok span
  | none => .error (.noPosition t.kind)

/-- The line with a number, empty if there is none. -/
def lineAt (s : Source) (number : Int) : List Char :=
  if 1 ≤ number then (s.lines[(number - 1).toNat]?).getD [] else []

/-- A statement's head without the colon at its end. -/
def withoutColon (head : List Char) : String :=
  String.ofList (Text.trim (Text.dropEndWhile (· == ':') (Text.trim head)))

/-- The first line of a statement, up to its body if that starts on the same line. -/
def header (s : Source) (t : AbstractTree) (body : List AbstractTree) :
    Except SourceFault String := do
  let span ← spanOf t
  let raw := s.lineAt span.line
  match body with
  | [] => return withoutColon raw
  | first :: _ =>
    let start ← spanOf first
    if start.line = span.line then
      return withoutColon
        (Text.Utf8.decodeSkipping (slice (Text.Utf8.encode raw) 0 start.column))
    else return withoutColon raw

/-- The last of the lines `start + 1`, …, `start + count` whose text starts with `keyword`. -/
def keywordLine (s : Source) (keyword : List Char) (start : Int) : (count : Nat) → Option Int
  | 0 => none
  | count + 1 =>
    let number := start + (count + 1 : Nat)
    if keyword.isPrefixOf (Text.trim (s.lineAt number)) then some number
    else keywordLine s keyword start count

/-- The last line of a part of a guarded body that ends a list, or `least` if that is later. -/
def lastLine (least : Int) (part : List AbstractTree) : Except SourceFault Int :=
  match part.getLast? with
  | none => .ok least
  | some t => do
    match t.span.bind (·.endLine) with
    | some line => if line = 0 then return max least (← spanOf t).line else return max least line
    | none => return max least (← spanOf t).line

/-- The line of the keyword before the statements of a cleanup: the last line after the other parts,
and not after the cleanup's first statement, that starts with it. -/
def cleanupLine (s : Source) (t : AbstractTree) (parts : List (List AbstractTree))
    (cleanup : List AbstractTree) : Except SourceFault (Option Int) :=
  match cleanup with
  | [] => .ok none
  | first :: _ => do
    let start ← parts.foldlM lastLine (← spanOf t).line
    let last := min (← spanOf first).line (s.lines.length : Int)
    return s.keywordLine "finally".toList start (last - start).toNat

end Source

namespace AbstractTree

/-- Kinds of statements that are not drawn. -/
def skippedKinds : List String := ["Import", "ImportFrom", "Global", "Nonlocal"]

/-- The body of a compound node. -/
def body : AbstractTree → List AbstractTree
  | .compound _ _ _ _ _ body _ _ _ => body
  | _ => []

/-- A statement that is neither compound nor skipped: its text, or its kind if it has none. -/
def simple (s : Source) (t : AbstractTree) : Except SourceFault Stmt := do
  let text ← s.segment t
  return .simple t.line (if text.isEmpty then t.kind.toLower else text)

mutual
/-- The statement of a node. -/
def toStmt (s : Source) : AbstractTree → Except SourceFault Stmt
  | t@(.leaf kind _ value _ _) =>
    if skippedKinds.contains kind then .ok .skip
    else if kind == "Expr" && value.any isTextConstant then .ok .skip
    else if kind == "Return" || kind == "Raise" then do
      return .terminal t.line (← s.segment t)
    else simple s t
  | t@(.compound kind _ name head _ body orelse handlers finalbody) =>
    if kind == "If" then do
      let text ← s.header t body
      let cond ← s.segmentOf head
      return .branch t.line text cond (← toStmts s body) (← toStmts s orelse)
    else if kind == "For" || kind == "AsyncFor" || kind == "While" then do
      let text ← s.header t body
      return .loop t.line text (← toStmts s body) (← toStmts s orelse)
    else if kind == "Try" || kind == "TryStar" then do
      let handled ← toHandlers s handlers
      let final ← toStmts s finalbody
      let line ← s.cleanupLine t (body :: orelse :: handlers.map AbstractTree.body) finalbody
      let cleanup := if finalbody.isEmpty then none else some (⟨line, final⟩ : Cleanup Stmt)
      let span ← Source.spanOf t
      return .guarded (some span.line) "Try" (← toStmts s body) (← toStmts s orelse) handled cleanup
    else if kind == "With" || kind == "AsyncWith" then do
      let text ← s.header t body
      return .resource t.line text (← toStmts s body) "Exit With"
    else if kind == "FunctionDef" then do
      return .function t.line ("Func: " ++ name) (← toStmts s body)
    else if kind == "AsyncFunctionDef" then do
      return .function t.line ("Async Func: " ++ name) (← toStmts s body)
    else if kind == "ClassDef" then do
      return .container t.line ("Class: " ++ name) (← toStmts s body)
    else simple s t
  | t@(.matching _ _ subject cases) => do
    let text ← s.segment subject
    let cs ← toCases s text cases
    let span ← Source.spanOf t
    return .switch (some span.line) (← s.header t []) text cs

/-- The statements of nodes in a row. -/
def toStmts (s : Source) : List AbstractTree → Except SourceFault (List Stmt)
  | [] => .ok []
  | t :: ts => do
    let first ← toStmt s t
    return first :: (← toStmts s ts)

/-- The handlers of a guarded body. -/
def toHandlers (s : Source) : List AbstractTree → Except SourceFault (List (Handler Stmt))
  | .compound kind span name head guard body orelse handlers finalbody :: ts => do
    let t := AbstractTree.compound kind span name head guard body orelse handlers finalbody
    let type ← s.segmentOf head
    let label := if head.isNone then "Except" else "Except: " ++ type
    let start ← Source.spanOf t
    let stmts ← toStmts s body
    return ⟨label, some start.line, stmts⟩ :: (← toHandlers s ts)
  | _ :: ts => toHandlers s ts
  | [] => .ok []

/-- The cases of a choice between patterns of `subject`. -/
def toCases (s : Source) (subject : String) :
    List AbstractTree → Except SourceFault (List (Case Stmt))
  | .compound _ _ _ (some pattern) guard body _ _ _ :: ts => do
    let shape ← s.segment pattern
    let test ← s.segmentOf guard
    let condition := if guard.isNone then "" else " if " ++ test
    let start ← Source.spanOf pattern
    let stmts ← toStmts s body
    let isDefault := pattern.isCapture && guard.isNone
    return ⟨subject ++ " is " ++ shape ++ condition, some start.line, isDefault, stmts⟩ ::
      (← toCases s subject ts)
  | _ :: ts => toCases s subject ts
  | [] => .ok []
end

end AbstractTree

end Flowchart
