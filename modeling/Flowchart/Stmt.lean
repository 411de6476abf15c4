/-!
# Statements

What an imperative program looks like once its language no longer matters. A line is the one-based
source line a statement starts on, where it is known; texts are source texts, not yet labels.
-/

namespace Flowchart

/-- A handler of an exception: its label, its line and what it does. -/
structure Handler (σ : Type) where
  label : String
  line : Option Int
  body : List σ
  deriving Repr

/-- A case of a switch. -/
structure Case (σ : Type) where
  label : String
  line : Option Int
  isDefault : Bool
  body : List σ
  deriving Repr

/-- What is done on the way out of a statement, and the line that says so. -/
structure Cleanup (σ : Type) where
  line : Option Int
  body : List σ
  deriving Repr

/-- A statement. -/
inductive Stmt where
  /-- A step: an assignment, a call, a declaration, a jump within a loop. -/
  | simple (line : Option Int) (text : String)
  /-- A choice. `text` stands in for a condition that is empty. -/
  | branch (line : Option Int) (text cond : String) (body orelse : List Stmt)
  /-- A loop, with what follows when it ends by itself. -/
  | loop (line : Option Int) (text : String) (body orelse : List Stmt)
  /-- A loop with a start, a condition and an update. -/
  | countedLoop (line : Option Int) (text init cond update : String) (body : List Stmt)
  /-- A guarded body: what follows if nothing is thrown, the handlers, and the cleanup. -/
  | guarded (line : Option Int) (text : String) (body orelse : List Stmt)
      (handlers : List (Handler Stmt)) (cleanup : Option (Cleanup Stmt))
  /-- A choice between cases. -/
  | switch (line : Option Int) (text subject : String) (cases : List (Case Stmt))
  /-- A body that uses a resource, and what closing it is called. -/
  | resource (line : Option Int) (text : String) (body : List Stmt) (close : String)
  /-- A statement that leaves its function. -/
  | terminal (line : Option Int) (text : String)
  /-- A function. -/
  | function (line : Option Int) (text : String) (body : List Stmt)
  /-- A container of declarations. -/
  | container (line : Option Int) (text : String) (members : List Stmt)
  /-- Statements in a row. -/
  | block (line : Option Int) (body : List Stmt)
  /-- Nothing that is drawn. -/
  | skip
  deriving Repr

instance : Inhabited Stmt := ⟨.skip⟩

end Flowchart
