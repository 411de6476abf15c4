import Flowchart.Graph
import Flowchart.Language

/-!
# Query clauses

The clauses a query is drawn as, in the order in which a dialect evaluates them (`rank`), and how each
is drawn.
-/

namespace Flowchart

/-- A kind of clause. A `statement` is what comes before the query part of a statement, or a whole
statement without a clause. -/
inductive ClauseKind where
  | cte
  | source
  | join
  | lateral
  | where_
  | groupBy
  | having
  | window
  | select
  | distribute
  | orderBy
  | limit
  | statement
  deriving DecidableEq, Repr

namespace ClauseKind

/-- The name of a kind. -/
def name : ClauseKind → String
  | .cte => "cte"
  | .source => "source"
  | .join => "join"
  | .lateral => "lateral"
  | .where_ => "where"
  | .groupBy => "group_by"
  | .having => "having"
  | .window => "window"
  | .select => "select"
  | .distribute => "distribute"
  | .orderBy => "order_by"
  | .limit => "limit"
  | .statement => "statement"

/-- The place of a kind in the evaluation order of Spark, where no two kinds share one. -/
def sparkRank : ClauseKind → Nat
  | .cte => 0
  | .source => 1
  | .join => 2
  | .lateral => 3
  | .where_ => 4
  | .groupBy => 5
  | .having => 6
  | .window => 7
  | .select => 8
  | .distribute => 9
  | .orderBy => 10
  | .limit => 11
  | .statement => 12

/-- The place of a kind in the evaluation order of all other dialects. -/
def standardRank : ClauseKind → Nat
  | .cte => 0
  | .source => 1
  | .join => 2
  | .lateral => 2
  | .where_ => 3
  | .groupBy => 4
  | .having => 5
  | .window => 6
  | .select => 7
  | .distribute => 8
  | .orderBy => 8
  | .limit => 9
  | .statement => 10

/-- The place of a kind in the evaluation order of a dialect. -/
def rank (dialect : Dialect) (k : ClauseKind) : Nat :=
  if dialect = .spark then k.sparkRank else k.standardRank

/-- The outline of a kind's node. -/
def shape : ClauseKind → Shape
  | .cte => .flag
  | .source => .database
  | .join => .database
  | .lateral => .loop
  | .where_ => .decision
  | .groupBy => .process
  | .having => .decision
  | .window => .process
  | .select => .stadium
  | .distribute => .subroutine
  | .orderBy => .process
  | .limit => .subroutine
  | .statement => .process

/-- The style of a kind's node in Spark, where it has one. -/
def sparkStyle? : ClauseKind → Option String
  | .source | .join => some "fill:#e65100,color:#fff,stroke:#bf360c"
  | .lateral => some "fill:#ffccbc,stroke:#bf360c"
  | .distribute => some "fill:#fff9c4,stroke:#fbc02d"
  | .select => some "fill:#e8f5e9,stroke:#2e7d32"
  | .where_ | .having => some "fill:#fff3e0,stroke:#e65100"
  | .cte => some "fill:#e1f5fe,stroke:#0277bd"
  | .groupBy | .window | .orderBy | .limit | .statement => none

end ClauseKind

/-- A clause found in a query: its text, the line it starts on and its place in the source, counted
in characters. -/
structure Clause where
  kind : ClauseKind
  text : String
  line : Int
  pos : Nat
  deriving DecidableEq, Repr

end Flowchart
