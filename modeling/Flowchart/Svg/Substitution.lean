import Flowchart.Text.Class

/-!
# Variables in label text

Where the names of variables stand in a text, and which of them are assigned there. A name stands
between word boundaries. It is assigned where an equals sign follows, blanks aside, that is no part of
a comparison; there the name itself is meant, not its value.
-/

namespace Flowchart.Substitution

/-- Whether blanks and an equals sign follow, but no second one. -/
def assignmentFollows (cs : List Char) : Bool :=
  match cs.dropWhile Text.isBlank with
  | '=' :: rest => rest.head? != some '='
  | _ => false

/-- Whether the text, which follows `before`, has a place where `name` is assigned. -/
def assignedFrom (name : List Char) : (before : Option Char) → List Char → Bool
  | _, [] => false
  | before, c :: cs =>
    (Text.boundary before (some c) &&
      match name.isPrefixOf? (c :: cs) with
      | some rest => assignmentFollows rest
      | none => false) || assignedFrom name (some c) cs

/-- Whether the text has a place where `name` is assigned. -/
def isAssigned (name text : List Char) : Bool := assignedFrom name none text

/-- The first of the names that stands here and is not assigned. -/
def nameHere? (names : List (List Char)) (before : Option Char) (cs : List Char) :
    Option (List Char) :=
  if Text.boundary before cs.head? then
    names.find? fun name =>
      match name.isPrefixOf? cs with
      | some rest => Text.boundary name.getLast? rest.head? && !assignmentFollows rest
      | none => false
  else none

/-- The text before the first name, and for every name the text between it and the next. `skip`
characters still belong to a name. -/
def splitFrom (names : List (List Char)) : (before : Option Char) → (skip : Nat) → List Char →
    List Char × List (List Char × List Char)
  | _, _, [] => ([], [])
  | _, skip + 1, c :: cs => splitFrom names (some c) skip cs
  | before, 0, c :: cs =>
    match nameHere? names before (c :: cs) with
    | some name =>
      let (text, found) := splitFrom names (some c) (name.length - 1) cs
      ([], (name, text) :: found)
    | none =>
      let (text, found) := splitFrom names (some c) 0 cs
      (c :: text, found)

/-- Names with the longer ones first, those of one length in the order given. -/
def longestFirst (names : List (List Char)) : List (List Char) :=
  names.mergeSort fun a b => b.length ≤ a.length

/-- The text before the first name, and for every name the text between it and the next. Of several
names that stand at one place the longest counts. -/
def split (names : List (List Char)) (text : List Char) :
    List Char × List (List Char × List Char) :=
  splitFrom (longestFirst names) none 0 text

end Flowchart.Substitution
