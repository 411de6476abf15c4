import Flowchart.Graph.Builder
import Flowchart.Stmt

/-!
# Drawing statements

Statements become nodes and edges of a graph under construction. The functions carry a list of
*exits*: the places from which the next node will be reached, each with the label and the style of the
edge to come. No exits means that control does not get here, as after a return, or that nothing has
been drawn yet.

`lowerBlock` threads the exits through a list of statements. A branch, a switch and a guarded body
collect the exits of their parts in one merge point; a loop leads its exits back to its head; a
terminal has none; a function and a container keep what they hold to themselves.

All functions recurse on the statements alone.

## Order

The nodes are numbered in the order in which they are drawn, and the order is that of the text with two
exceptions: the merge point of a choice comes behind all of its parts, and the default of a switch comes
last, wherever it is written. Of several defaults the first one counts.
-/

namespace Flowchart

/-- A place from which the next node is reached. -/
structure Exit where
  node : String
  label : Option String := none
  style : EdgeStyle := .solid
  deriving DecidableEq, Repr

/-- A computation that draws. -/
abbrev Drawing := StateM Builder

namespace Drawing

/-- Adds a node. -/
def node (shape : Shape) (text : String) (line : Option Int) : Drawing String :=
  fun b => b.addNode shape text line

/-- Adds an edge. -/
def edge (source target : String) (label : Option String := none) (style : EdgeStyle := .solid) :
    Drawing Unit :=
  fun b => ((), b.addEdge source target label style)

/-- Draws an edge to `target` from every exit. -/
def link (exits : List Exit) (target : String) : Drawing Unit :=
  fun b => ((), exits.foldl (fun b e => b.addEdge e.node target e.label e.style) b)

/-- Adds a node and links the exits to it. -/
def nodeAfter (exits : List Exit) (shape : Shape) (text : String) (line : Option Int) :
    Drawing String := do
  let n ← node shape text line
  link exits n
  return n

/-- Collects exits in a merge point, if there are any. -/
def merge (exits : List Exit) : Drawing (List Exit) :=
  if exits.isEmpty then return []
  else do
    let m ← (fun b => b.addMerge : Drawing String)
    link exits m
    return [⟨m, none, .solid⟩]

/-- Leads the exits of a loop's body back to its head. -/
def repeatTo (head : String) (exits : List Exit) : Drawing Unit :=
  fun b => ((), exits.foldl (fun b e =>
    if e.node = head then b else b.addEdge e.node head (some "Repeat") e.style) b)

end Drawing

/-- The first text, or the second if the first is empty. -/
def orText (first second : String) : String := if first.isEmpty then second else first

open Drawing

mutual
/-- Draws a statement that is reached from `exits`. -/
def lowerStmt : Stmt → List Exit → Drawing (List Exit)
  | .simple line text, exits => do
    let n ← nodeAfter exits .process text line
    return [⟨n, none, .solid⟩]
  | .branch line text cond body orelse, exits => do
    let d ← nodeAfter exits .decision (orText cond text) line
    let yes ← lowerBlock body [⟨d, some "Yes", .solid⟩]
    let no ← lowerElse d orelse
    merge (yes ++ no)
  | .loop line text body orelse, exits => do
    let head ← nodeAfter exits .loop text line
    let ends ← lowerBlock body [⟨head, none, .solid⟩]
    repeatTo head ends
    lowerBlock orelse [⟨head, none, .solid⟩]
  | .countedLoop line text init cond update body, exits => do
    let entry ←
      if init.isEmpty then pure exits
      else do
        let n ← nodeAfter exits .process init line
        pure [⟨n, none, .solid⟩]
    let head ← nodeAfter entry .loop (orText cond text) line
    let ends ← lowerBlock body [⟨head, none, .solid⟩]
    let ends ←
      if update.isEmpty || ends.isEmpty then pure ends
      else do
        let n ← nodeAfter ends .process update line
        pure [⟨n, none, .solid⟩]
    repeatTo head ends
    return [⟨head, none, .solid⟩]
  | .guarded line text body orelse handlers cleanup, exits => do
    let entry ← nodeAfter exits .flag (orText text "Try") line
    let normal ← lowerBlock body [⟨entry, none, .solid⟩]
    let normal ← lowerBlock orelse normal
    let handled ← lowerHandlers entry handlers
    let after ← merge (normal ++ handled)
    lowerCleanup entry after cleanup
  | .switch _ _ _ cases, exits => do
    if cases.all (·.isDefault) then lowerDefault cases exits
    else
      let (taken, pending) ← lowerCases cases exits
      let rest ← lowerDefault cases pending
      merge (taken ++ rest)
  | .resource line text body close, exits => do
    let head ← nodeAfter exits .process text line
    let ends ← lowerBlock body [⟨head, none, .solid⟩]
    if ends.isEmpty then return []
    else
      let n ← nodeAfter ends .process (orText close "Close") line
      return [⟨n, none, .solid⟩]
  | .terminal line text, exits => do
    let _ ← nodeAfter exits .terminal text line
    return []
  | .function line text body, exits => do
    let f ← nodeAfter exits .stadium text line
    let _ ← lowerBlock body [⟨f, none, .solid⟩]
    return [⟨f, none, .solid⟩]
  | .container line text members, exits => do
    let before := (← get).nodes.length
    let _ ← (fun b => b.openSubgraph text line : Drawing String)
    lowerMembers members
    -- diagram text needs a node in every subgraph
    if (← get).nodes.length = before + 1 then
      let _ ← node .process text line
    modify Builder.closeSubgraph
    return exits
  | .block _ body, exits => lowerBlock body exits
  | .skip, exits => return exits

/-- Draws statements one after another. -/
def lowerBlock : List Stmt → List Exit → Drawing (List Exit)
  | [], exits => return exits
  | s :: rest, exits => do
    let exits ← lowerStmt s exits
    lowerBlock rest exits

/-- Draws what follows when the decision `d` says no. A branch that stands alone there is a further
decision of the same chain: it is linked straight to `d` and shares the chain's merge point. -/
def lowerElse (d : String) : List Stmt → Drawing (List Exit)
  | [.branch line text cond body orelse] => do
    let next ← node .decision (orText cond text) line
    edge d next (some "No")
    let yes ← lowerBlock body [⟨next, some "Yes", .solid⟩]
    let no ← lowerElse next orelse
    return yes ++ no
  | [] => return [⟨d, some "No", .solid⟩]
  | s :: rest => do
    let exits ← lowerStmt s [⟨d, some "No", .solid⟩]
    lowerBlock rest exits

/-- Draws the handlers of a guarded body that starts at `entry`. -/
def lowerHandlers (entry : String) : List (Handler Stmt) → Drawing (List Exit)
  | [] => return []
  | ⟨label, line, body⟩ :: rest => do
    let h ← node .flag label line
    edge entry h (some "Exception") .dashed
    let ends ← lowerBlock body [⟨h, none, .solid⟩]
    let others ← lowerHandlers entry rest
    return ends ++ others

/-- Draws the cleanup of a guarded body that starts at `entry` and goes on at `after`. If no path
goes on, the cleanup is still done on the way out. -/
def lowerCleanup (entry : String) (after : List Exit) :
    Option (Cleanup Stmt) → Drawing (List Exit)
  | none => return after
  | some ⟨line, body⟩ => do
    let f ← node .subroutine "Finally" line
    if after.isEmpty then edge entry f none .dashed else link after f
    let ends ← lowerBlock body [⟨f, none, .solid⟩]
    return if after.isEmpty then [] else ends

/-- Draws the cases of a switch as a chain of decisions, defaults left out. Gives the exits of the
cases and the exits of the chain. -/
def lowerCases : List (Case Stmt) → List Exit → Drawing (List Exit × List Exit)
  | [], pending => return ([], pending)
  | ⟨label, line, isDefault, body⟩ :: rest, pending =>
    if isDefault then lowerCases rest pending
    else do
      let d ← nodeAfter pending .decision label line
      let taken ← lowerBlock body [⟨d, some "Yes", .solid⟩]
      let (others, last) ← lowerCases rest [⟨d, some "No", .solid⟩]
      return (taken ++ others, last)

/-- Draws the first default case of a switch; without one control goes straight on. -/
def lowerDefault : List (Case Stmt) → List Exit → Drawing (List Exit)
  | [], exits => return exits
  | ⟨_, _, isDefault, body⟩ :: rest, exits =>
    if isDefault then lowerBlock body exits else lowerDefault rest exits

/-- Draws the members of a container, none reached from another. -/
def lowerMembers : List Stmt → Drawing Unit
  | [] => return ()
  | s :: rest => do
    let _ ← lowerStmt s []
    lowerMembers rest
end

/-- Draws a program. -/
def lowerProgram (stmts : List Stmt) : Drawing (List Exit) := lowerBlock stmts []

end Flowchart
