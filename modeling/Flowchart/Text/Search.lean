import Flowchart.Text.Class

/-!
# Finding words

Searches that respect word boundaries. Each walks the text with the character before the present
place, so that a boundary can be told without looking back, and steps over a match by counting the
characters it still covers.
-/

namespace Flowchart.Text

/-- What follows `word` if it stands right here between two word boundaries. -/
def wordHere? (word : List Char) (before : Option Char) (cs : List Char) : Option (List Char) :=
  match word.isPrefixOf? cs with
  | none => none
  | some rest =>
    if boundary before cs.head? && boundary (word.getLast?.or before) rest.head? then some rest
    else none

/-- Whether `word` occurs between word boundaries in a text that follows `before`. -/
def hasWordFrom (word : List Char) : (before : Option Char) → List Char → Bool
  | _, [] => false
  | before, c :: cs =>
    (wordHere? word before (c :: cs)).isSome || hasWordFrom word (some c) cs

/-- Whether `word` occurs in the text between word boundaries. -/
def hasWord (word text : List Char) : Bool := hasWordFrom word none text

/-- The pieces of a text between the places where `word` stands between boundaries. `skip`
characters still belong to the last such place; `piece` is the piece under way, reversed. -/
def splitOnWordFrom (word : List Char) :
    (before : Option Char) → (skip : Nat) → (piece : List Char) → List Char → List (List Char)
  | _, _, piece, [] => [piece.reverse]
  | _, skip + 1, piece, c :: cs => splitOnWordFrom word (some c) skip piece cs
  | before, 0, piece, c :: cs =>
    match wordHere? word before (c :: cs) with
    | some _ => piece.reverse :: splitOnWordFrom word (some c) (word.length - 1) [] cs
    | none => splitOnWordFrom word (some c) 0 (c :: piece) cs

/-- The pieces of a text between the places where `word` stands between boundaries. -/
def splitOnWord (word text : List Char) : List (List Char) := splitOnWordFrom word none 0 [] text

/-- Whether `part` occurs in the text. -/
def occurs (part : List Char) : List Char → Bool
  | [] => part.isEmpty
  | c :: cs => part.isPrefixOf (c :: cs) || occurs part cs

/-- How often `part` occurs in the text without overlap, counted from the left; `skip` characters
still belong to the last occurrence. -/
def countFrom (part : List Char) : (skip : Nat) → List Char → Nat
  | _, [] => 0
  | skip + 1, _ :: cs => countFrom part skip cs
  | 0, c :: cs =>
    if part.isPrefixOf (c :: cs) then countFrom part (part.length - 1) cs + 1
    else countFrom part 0 cs

/-- How often a non-empty `part` occurs in the text without overlap. -/
def count (part text : List Char) : Nat := countFrom part 0 text

end Flowchart.Text
