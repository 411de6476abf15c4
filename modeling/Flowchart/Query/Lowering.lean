import Flowchart.Graph.Builder
import Flowchart.Query.Clause

/-!
# Drawing queries

Every clause becomes a node. The clauses of a statement are put in the order in which the dialect
evaluates them, those of one place in textual order, and all nodes are chained one after another
across statements.
-/

namespace Flowchart.Query

/-- Whether `a` is not evaluated after `b`. -/
def precedes (dialect : Dialect) (a b : Clause) : Bool :=
  let ra := a.kind.rank dialect
  let rb := b.kind.rank dialect
  ra < rb || (ra == rb && a.pos ≤ b.pos)

/-- The clauses of a statement in evaluation order. -/
def ordered (dialect : Dialect) (clauses : List Clause) : List Clause :=
  clauses.mergeSort (precedes dialect)

/-- Draws a clause after the node `prev`, if there is one; gives the new node. -/
def drawClause (dialect : Dialect) (prev : Option String) (c : Clause) (b : Builder) :
    String × Builder :=
  let (id, b) := b.addNode c.kind.shape c.text (some c.line) (.named "Q")
  let b := match prev with
    | some p => b.addEdge p id
    | none => b
  match (if dialect = .spark then c.kind.sparkStyle? else none) with
  | some css => (id, b.addStyle id css)
  | none => (id, b)

/-- Draws clauses one after another. -/
def drawAll (dialect : Dialect) : (prev : Option String) → List Clause → Builder → Builder
  | _, [], b => b
  | prev, c :: cs, b =>
    let (id, b) := drawClause dialect prev c b
    drawAll dialect (some id) cs b

/-- Draws the statements of a query. -/
def lower (dialect : Dialect) (statements : List (List Clause)) (b : Builder) : Builder :=
  drawAll dialect none (statements.flatMap (ordered dialect)) b

end Flowchart.Query
