import Flowchart.Query.Clause
import Flowchart.Query.Text
import Flowchart.Text.Fold

/-!
# Finding clauses by their keywords

A statement is cut at the keywords that stand at depth zero. A keyword is a phrase: words with blanks
between them, letter case ignored, between word boundaries. `phrases` lists them by kind; where two
phrases start alike the longer one stands first.
-/

namespace Flowchart.Query

/-- The phrases that start a clause. -/
def phrases : List (ClauseKind × List (List String)) := [
  (.lateral, [["lateral", "view", "outer"], ["lateral", "view"]]),
  (.join,
    (["left", "right", "full", "inner", "cross"].flatMap fun side =>
      [["natural", side, "outer", "join"], ["natural", side, "semi", "join"],
        ["natural", side, "anti", "join"], ["natural", side, "join"],
        [side, "outer", "join"], [side, "semi", "join"], [side, "anti", "join"],
        [side, "join"]]) ++
    [["semi", "join"], ["anti", "join"], ["join"], ["cross", "apply"], ["outer", "apply"]]),
  (.groupBy, [["group", "by"]]),
  (.orderBy, [["order", "by"]]),
  (.distribute, [["distribute", "by"], ["cluster", "by"], ["sort", "by"]]),
  (.select, [["select"]]),
  (.source, [["from"]]),
  (.where_, [["where"]]),
  (.having, [["having"]]),
  (.window, [["window"]]),
  (.limit, [["limit"], ["offset"], ["fetch", "first"], ["fetch", "next"]])]

/-- What follows a phrase that the text starts with. -/
def afterPhrase? : (phrase : List String) → List Char → Option (List Char)
  | [], cs => some cs
  | [word], cs => Text.foldedPrefix? word.toList cs
  | word :: words, cs =>
    match Text.foldedPrefix? word.toList cs with
    | none => none
    | some rest =>
      let next := rest.dropWhile Text.isBlank
      if next.length < rest.length then afterPhrase? words next else none

/-- The kind and length of the keyword that stands here between word boundaries. -/
def keywordHere? (before : Option Char) (cs : List Char) : Option (ClauseKind × Nat) :=
  if Text.boundary before cs.head? then
    phrases.findSome? fun (kind, forms) =>
      forms.findSome? fun phrase =>
        match afterPhrase? phrase cs with
        | none => none
        | some rest =>
          let length := cs.length - rest.length
          if Text.boundary (cs[length - 1]?) rest.head? then some (kind, length) else none
  else none

/-- The keywords of depth zero with their places. `pos` is the present place, `before` the character
before it; `skip` characters still belong to a keyword. -/
def marksFrom : (pos : Nat) → (before : Option Char) → (skip : Nat) →
    List Char → List (Option Nat) → List (Nat × ClauseKind)
  | pos, _, skip + 1, c :: cs, _ :: ds => marksFrom (pos + 1) (some c) skip cs ds
  | pos, before, 0, c :: cs, d :: ds =>
    match keywordHere? before (c :: cs) with
    | none => marksFrom (pos + 1) (some c) 0 cs ds
    | some (kind, length) =>
      let rest := marksFrom (pos + 1) (some c) (length - 1) cs ds
      if d = some 0 then (pos, kind) :: rest else rest
  | _, _, _, _, _ => []

/-- The place of the word that starts a statement with named subqueries. -/
def cteMark? (stmt : List Char) : Option Nat :=
  let blanks := (stmt.takeWhile Text.isBlank).length
  match Text.foldedPrefix? "with".toList (stmt.drop blanks) with
  | none => none
  | some rest => if Text.wordAt rest.head? then none else some blanks

/-- The places at which a statement is cut. -/
def marks (stmt : List Char) : List (Nat × ClauseKind) :=
  (match cteMark? stmt with
    | some pos => [(pos, ClauseKind.cte)]
    | none => []) ++ marksFrom 0 none 0 stmt (depths stmt)

/-! ### A limit inside a select list -/

/-- Every pair of spaces as one space, from the left. -/
def halveSpaces : List Char → List Char
  | ' ' :: ' ' :: cs => ' ' :: halveSpaces cs
  | c :: cs => c :: halveSpaces cs
  | [] => []

/-- The text without a parenthesis at its start, and whether there was one. -/
def dropParen (paren : Char) (cs : List Char) : List Char :=
  if cs.head? = some paren then cs.tail else cs

/-- What follows a limit at the start of a select list: its word, a number that may stand in
parentheses, and after a closing parenthesis the word for a share. -/
def afterTop? (cs : List Char) : Option (List Char) := do
  let rest ← Text.foldedPrefix? "top".toList cs
  let rest := (dropParen '(' (rest.dropWhile Text.isBlank)).dropWhile Text.isBlank
  if rest.head?.any Text.isDigit then
    let rest := dropParen ')' ((rest.dropWhile Text.isDigit).dropWhile Text.isBlank)
    let next := rest.dropWhile Text.isBlank
    if next.length < rest.length then
      return (Text.foldedPrefix? "percent".toList next).getD rest
    else return rest
  else none

/-- The place and the length of a limit at the start of the select list of a clause text. -/
def topOf? (text : List Char) : Option (Nat × Nat) := do
  let rest ← Text.foldedPrefix? "select".toList text
  let list := rest.dropWhile Text.isBlank
  if list.length < rest.length then
    let plain := (afterTop? list).map fun after =>
      (text.length - list.length, list.length - after.length)
    match Text.foldedPrefix? "distinct".toList list with
    | none => plain
    | some rest =>
      let inner := rest.dropWhile Text.isBlank
      if inner.length < rest.length then
        match afterTop? inner with
        | some after => return (text.length - inner.length, inner.length - after.length)
        | none => plain
      else plain
  else none

/-- The clauses of a keyword with the text `text` at `pos`: a select with a limit in its list is two
clauses, but not in Spark. -/
def clausesOf (dialect : Dialect) (kind : ClauseKind) (text : List Char) (line : Int) (pos : Nat) :
    List Clause :=
  let whole : List Clause := [⟨kind, String.ofList text, line, pos⟩]
  if kind = .select ∧ dialect ≠ .spark then
    match topOf? text with
    | none => whole
    | some (start, length) =>
      let rest := halveSpaces (text.take start ++ text.drop (start + length))
      [⟨.select, String.ofList (Text.trim rest), line, pos⟩,
        ⟨.limit, String.ofList (Text.trim ((text.drop start).take length)), line, pos⟩]
  else whole

/-! ### The scan -/

/-- The pieces of a statement from each mark to the next, the last to the end. -/
def cut (stmt : List Char) : List (Nat × ClauseKind) → List (Nat × ClauseKind × List Char)
  | [] => []
  | [(pos, kind)] => [(pos, kind, stmt.drop pos)]
  | (pos, kind) :: (next, kind') :: marks =>
    (pos, kind, (stmt.take next).drop pos) :: cut stmt ((next, kind') :: marks)

/-- A piece of a statement that is a clause of its own, unless it is blank. -/
def ownClause (sql : List Char) (offset : Nat) (piece : List Char) : List Clause :=
  if Text.allBlank piece then []
  else
    let pos := offset + (piece.takeWhile Text.isBlank).length
    [⟨.statement, String.ofList (Text.normalize piece), lineAt sql pos, pos⟩]

/-- The clauses of the statement at `offset` in `sql`. -/
def scanStatement (dialect : Dialect) (sql : List Char) (offset : Nat) (stmt : List Char) :
    List Clause :=
  let marks := marks stmt
  let head := match marks with
    | [] => []
    | (pos, _) :: _ => stmt.take pos
  let clauses := ownClause sql offset head ++
    (cut stmt marks).flatMap fun (pos, kind, piece) =>
      let text := clauseText piece
      if text.isEmpty then []
      else clausesOf dialect kind text (lineAt sql (offset + pos)) (offset + pos)
  if clauses.isEmpty then ownClause sql offset stmt else clauses

/-- The clauses of every statement, found by their keywords. -/
def scan (dialect : Dialect) (text : List Char) : List (List Clause) :=
  let sql := blankComments text
  (statements sql).map fun (offset, stmt) => scanStatement dialect sql offset stmt

end Flowchart.Query
