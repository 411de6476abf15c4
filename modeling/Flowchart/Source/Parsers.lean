import Flowchart.Log
import Flowchart.Source.Abstract
import Flowchart.Source.Concrete

/-!
# Parsers

Parsers are not part of this library: a `Parsers` value says what they answer. A grammar has to be
loaded before its parser is asked; the grammars that were loaded, and those that could not be, are
remembered in `Grammars`, so that each is loaded once.
-/

namespace Flowchart

/-- What a parser makes of a text. -/
inductive Parsed (τ : Type) where
  | tree (t : τ)
  /-- The text is not in the language. -/
  | refused (reason : String)
  /-- The parser broke down. -/
  | crashed (reason : String)

/-- The answers of all parsers. -/
structure Parsers where
  /-- The parser of the indented language. -/
  abstract : String → Parsed AbstractTree
  /-- Why a grammar cannot be loaded, if it cannot. -/
  missing : (grammar : String) → Option String
  /-- The parser of a grammar. -/
  concrete : (grammar source : String) → Parsed ConcreteTree

/-- Which grammars were loaded, and which could not be. -/
structure Grammars where
  loaded : List String := []
  unsupported : List String := []

/-- Work that may load grammars and write to the log. -/
abbrev Work := StateT Grammars Logged

namespace Work

/-- Writes one entry. -/
def write (level : Level) (message : String) : Work Unit :=
  fun g => do
    Logged.write level message
    return ((), g)

/-- Work that loads no grammar. -/
def ofLogged {α : Type} (x : Logged α) : Work α := fun g => do return (← x, g)

/-- Writing to the log loads no grammar. -/
@[simp] theorem value_write (level : Level) (message : String) (loaded : Grammars) :
    ((write level message).run loaded).value = ((), loaded) := rfl

/-- A value with a log loads no grammar. -/
@[simp] theorem value_ofLogged {α : Type} (x : Logged α) (loaded : Grammars) :
    ((ofLogged x).run loaded).value = (x.value, loaded) := rfl

end Work

namespace Parsers

/-- Loads a grammar unless that has been done; says whether it can be used. -/
def load (p : Parsers) (grammar : String) : Work Bool := do
  let g ← get
  if grammar.isEmpty || g.unsupported.contains grammar then return false
  else if g.loaded.contains grammar then return true
  else
    match p.missing grammar with
    | some reason =>
      Work.write .warning ("[WARN] [PARSE] Grammar '" ++ grammar ++ "' unavailable: " ++ reason)
      set { g with unsupported := grammar :: g.unsupported }
      return false
    | none =>
      set { g with loaded := grammar :: g.loaded }
      Work.write .debug ("[PARSE] Loaded grammar '" ++ grammar ++ "'")
      return true

/-- Reports that a parser gave no tree. -/
def reportFailure (parser reason : String) : Work Unit :=
  Work.write .warning ("[WARN] [PARSE] " ++ parser ++ " parse failed: " ++ reason)

/-- The concrete tree of a source text, if its grammar can be used and its parser gives one. -/
def concreteTree? (p : Parsers) (grammar source : String) : Work (Option ConcreteTree) := do
  if ← p.load grammar then
    match p.concrete grammar source with
    | .tree t => return some t
    | .refused reason | .crashed reason =>
      reportFailure grammar reason
      return none
  else return none

end Parsers

end Flowchart
