import Flowchart.Text.Blank

/-!
# Query text

Comments, nesting and statements of a query text. `blankComments` writes comments as spaces, so that
nothing changes its place. `depths` gives the parenthesis depth at every character, and none inside
literals and quoted names. `statements` cuts the text at the semicolons of depth zero.
-/

namespace Flowchart.Query

/-! ### Comments -/

/-- The number of characters of the block comment that starts here, if one starts and is closed. -/
def blockComment? : List Char → Option Nat
  | '/' :: '*' :: cs => (closing cs).map (· + 4)
  | _ => none
where
  /-- The number of characters before the first end of a comment. -/
  closing : List Char → Option Nat
    | '*' :: '/' :: _ => some 0
    | _ :: cs => (closing cs).map (· + 1)
    | [] => none

/-- The text with its block comments written as spaces, line feeds kept; `skip` characters still
belong to a comment. -/
def blankBlocksFrom : (skip : Nat) → List Char → List Char
  | _, [] => []
  | skip + 1, c :: cs => (if c = '\n' then '\n' else ' ') :: blankBlocksFrom skip cs
  | 0, c :: cs =>
    match blockComment? (c :: cs) with
    | some n => ' ' :: blankBlocksFrom (n - 1) cs
    | none => c :: blankBlocksFrom 0 cs

/-- The text with its line comments written as spaces; `inComment` says that one is under way. -/
def blankLinesFrom : (inComment : Bool) → List Char → List Char
  | _, [] => []
  | true, c :: cs => if c = '\n' then '\n' :: blankLinesFrom false cs else ' ' :: blankLinesFrom true cs
  | false, c :: cs =>
    if c = '-' ∧ cs.head? = some '-' then ' ' :: blankLinesFrom true cs
    else c :: blankLinesFrom false cs

/-- The text with its comments written as spaces. -/
def blankComments (cs : List Char) : List Char := blankLinesFrom false (blankBlocksFrom 0 cs)

/-! ### Nesting -/

/-- The quote that closes what a character opens, if it opens a literal or a quoted name. -/
def closingQuote? (c : Char) : Option Char :=
  if c = '\'' ∨ c = '"' ∨ c = '\x60' then some c else if c = '[' then some ']' else none

/-- The depth at every character, from inside a literal that ends with `quote`, or none, at depth
`depth`. A parenthesis has the depth of its inside when it opens and of its outside when it
closes. -/
def depthsFrom : (quote : Option Char) → (depth : Nat) → List Char → List (Option Nat)
  | _, _, [] => []
  | some q, depth, c :: cs => none :: depthsFrom (if c = q then none else some q) depth cs
  | none, depth, c :: cs =>
    match closingQuote? c with
    | some q => none :: depthsFrom (some q) depth cs
    | none =>
      let depth := if c = '(' then depth + 1 else if c = ')' then depth - 1 else depth
      some depth :: depthsFrom none depth cs

/-- The depth at every character; none inside literals and quoted names. -/
def depths (cs : List Char) : List (Option Nat) := depthsFrom none 0 cs

/-! ### Statements -/

/-- The pieces between semicolons of depth zero with their places. `start` is the place of the piece
under way, `piece` the piece itself, reversed. -/
def piecesFrom : (start : Nat) → (piece : List Char) → List (Char × Option Nat) →
    List (Nat × List Char)
  | start, piece, [] => [(start, piece.reverse)]
  | start, piece, (c, depth) :: rest =>
    if c = ';' ∧ depth = some 0 then
      (start, piece.reverse) :: piecesFrom (start + piece.length + 1) [] rest
    else piecesFrom start (c :: piece) rest

/-- The statements of a query text with their places; blank ones are left out. -/
def statements (cs : List Char) : List (Nat × List Char) :=
  (piecesFrom 0 [] (cs.zip (depths cs))).filter fun p => !Text.allBlank p.2

/-- The line of a place. -/
def lineAt (cs : List Char) (pos : Nat) : Int := ((cs.take pos).count '\n' : Int) + 1

/-- A clause text on one line, without commas at its end. -/
def clauseText (cs : List Char) : List Char :=
  Text.dropEndWhile (· == ',') (Text.normalize cs)

end Flowchart.Query
