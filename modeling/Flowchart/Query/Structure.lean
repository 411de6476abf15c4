import Flowchart.Query.Scan
import Flowchart.Source.Parsers
import Flowchart.Text.Utf8

/-!
# Finding clauses in a syntax tree

Where the grammar of queries gives a tree without errors, clauses are nodes of that tree. They are
trusted if they cover every kind that the keyword scan finds in the statement; else the scan is
taken.

## Why a tree may not be trusted

One grammar reads all dialects, and it reads some texts without an error that it has no clauses for. The
scan by keywords tells less about a clause, but it loses no keyword at depth zero. So the statements of
both are counted, and in each statement the kinds of clauses are compared. Either all clauses of the
text are taken from the tree, or all from the scan.
-/

namespace Flowchart.Query

/-- The kind of clause a kind of node is. -/
def clauseKind? (kind : String) : Option ClauseKind :=
  match kind with
  | "cte" => some .cte
  | "from" => some .source
  | "join" | "cross_join" | "lateral_join" => some .join
  | "where" => some .where_
  | "group_by" => some .groupBy
  | "having" => some .having
  | "window_clause" => some .window
  | "select" => some .select
  | "order_by" => some .orderBy
  | "limit" | "offset" => some .limit
  | _ => none

/-- Kinds of nodes whose children may be clauses. -/
def containers : List String :=
  ["program", "statement", "from", "set_operation", "transaction", "block"]

mutual
/-- The clause nodes below a node, in reading order. -/
def collect : ConcreteTree → List (ConcreteTree × ClauseKind)
  | ⟨_, _, _, _, _, _, _, _, children⟩ => collectAll children

/-- The clause nodes among some trees and below those that are containers. -/
def collectAll : List ConcreteTree → List (ConcreteTree × ClauseKind)
  | [] => []
  | t :: ts =>
    if t.isNamed then
      (match clauseKind? t.kind with
        | some kind => [(t, kind)]
        | none => []) ++
      (if containers.contains t.kind then collect t else []) ++ collectAll ts
    else collectAll ts
end

/-- The clauses of clause nodes, each cut where the next one starts. -/
def clausesOfNodes (source : List UInt8) : List (ConcreteTree × ClauseKind) → List Clause
  | [] => []
  | (t, kind) :: rest =>
    let stop := match rest with
      | [] => t.stop
      | (next, _) :: _ => min t.stop next.start
    let text := clauseText (ConcreteTree.slice source t.start stop)
    if text.isEmpty then clausesOfNodes source rest
    else
      ⟨kind, String.ofList text, t.line, (ConcreteTree.slice source 0 t.start).length⟩ ::
        clausesOfNodes source rest

/-- The clauses of a statement node. -/
def clausesOfStatement (source : List UInt8) (t : ConcreteTree) : List Clause :=
  clausesOfNodes source ((collect t).mergeSort fun a b => a.1.start ≤ b.1.start)

/-- The clauses of every statement of a tree; none if the tree has an error or a statement has no
clause. -/
def ofTree? (sql : List Char) (root : ConcreteTree) : Option (List (List Clause)) :=
  if root.hasError then none
  else
    let statements := match root.namedChildren.filter fun c => c.kind == "statement" with
      | [] => [root]
      | stmts => stmts
    let clauses := statements.map (clausesOfStatement (Text.Utf8.encode sql))
    if clauses.any (·.isEmpty) then none else some clauses

/-- The clauses of every statement of a text without comments, as its syntax tree has them. -/
def structural (p : Parsers) (sql : List Char) : Work (Option (List (List Clause))) := do
  return (← p.concreteTree? "sql" (String.ofList sql)).bind (ofTree? sql)

/-- Whether the clauses of a tree have every kind that the keyword scan found. -/
def covers (parsed scanned : List Clause) : Bool :=
  scanned.all fun c => parsed.any fun d => d.kind == c.kind

/-- The clauses of every statement of a query text. -/
def extract (p : Parsers) (dialect : Dialect) (text : List Char) : Work (List (List Clause)) := do
  let scanned := scan dialect text
  if dialect = .spark then return scanned
  else
    match ← structural p (blankComments text) with
    | none => return scanned
    | some parsed =>
      if parsed.length ≠ scanned.length then return scanned
      else if (parsed.zip scanned).all fun (a, b) => covers a b then return parsed
      else
        Work.write .debug "[SQL] Structural parse incomplete, using keyword scan"
        return scanned

end Flowchart.Query
