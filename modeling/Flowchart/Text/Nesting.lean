import Flowchart.Text.Blank
import Flowchart.Text.Search

/-!
# Brackets and quotes

Scanners that know how deep inside brackets and whether inside quotes they are. Each carries that
state from character to character: the bracket depth, the quote that is open if one is, and, where
the scanner knows escapes, whether a backslash came just before.
-/

namespace Flowchart.Text

/-- The three quotes. -/
def isQuote (c : Char) : Bool := c == '\'' || c == '"' || c == '\x60'

/-- The three opening brackets. -/
def isOpening (c : Char) : Bool := c == '(' || c == '[' || c == '\x7b'

/-- The three closing brackets. -/
def isClosing (c : Char) : Bool := c == ')' || c == ']' || c == '\x7d'

/-! ### The group after a keyword -/

/-- Where a scan through a parenthesized group stands. -/
inductive GroupState where
  | code
  | quote (c : Char)
  | escape (c : Char)

/-- The text up to the parenthesis that closes the group; `depth` further ones are open. -/
def groupFrom : (state : GroupState) → (depth : Nat) → List Char → Option (List Char)
  | _, _, [] => none
  | .escape q, depth, c :: cs => (groupFrom (.quote q) depth cs).map (c :: ·)
  | .quote q, depth, c :: cs =>
    let next := if c = '\\' then GroupState.escape q else if c = q then .code else .quote q
    (groupFrom next depth cs).map (c :: ·)
  | .code, depth, c :: cs =>
    if isQuote c then (groupFrom (.quote c) depth cs).map (c :: ·)
    else if c = '(' then (groupFrom .code (depth + 1) cs).map (c :: ·)
    else if c = ')' then
      match depth with
      | 0 => some []
      | depth + 1 => (groupFrom .code depth cs).map (c :: ·)
    else (groupFrom .code depth cs).map (c :: ·)

/-- What follows the opening parenthesis if `keyword`, blanks and that parenthesis stand here after a
word boundary. -/
def groupHere? (keyword : List Char) (before : Option Char) (cs : List Char) :
    Option (List Char) :=
  if boundary before cs.head? then
    match keyword.isPrefixOf? cs with
    | none => none
    | some rest =>
      match rest.dropWhile isBlank with
      | '(' :: group => some group
      | _ => none
  else none

/-- What follows the first opening parenthesis that belongs to `keyword`. -/
def groupStart? (keyword : List Char) : (before : Option Char) → List Char → Option (List Char)
  | _, [] => none
  | before, c :: cs =>
    match groupHere? keyword before (c :: cs) with
    | some group => some group
    | none => groupStart? keyword (some c) cs

/-- The inside of the parentheses after the first `keyword` that has some; empty if there are none or
they are not closed. -/
def groupAfter (keyword text : List Char) : List Char :=
  ((groupStart? keyword none text).bind (groupFrom .code 0)).getD []

/-! ### Splitting outside brackets -/

/-- The trimmed pieces between separators outside brackets and quotes. `piece` is the piece under way,
reversed. A quote lasts to the next one of its kind. -/
def splitTopFrom (isSeparator : Char → Bool) :
    (quote : Option Char) → (depth : Nat) → (piece : List Char) → List Char → List (List Char)
  | _, _, piece, [] => [trim piece.reverse]
  | some q, depth, piece, c :: cs =>
    splitTopFrom isSeparator (if c = q then none else some q) depth (c :: piece) cs
  | none, depth, piece, c :: cs =>
    if isQuote c then splitTopFrom isSeparator (some c) depth (c :: piece) cs
    else if isOpening c then splitTopFrom isSeparator none (depth + 1) (c :: piece) cs
    else if isClosing c then splitTopFrom isSeparator none (depth - 1) (c :: piece) cs
    else if isSeparator c && depth == 0 then
      trim piece.reverse :: splitTopFrom isSeparator none depth [] cs
    else splitTopFrom isSeparator none depth (c :: piece) cs

/-- The trimmed pieces of a text between separators outside brackets and quotes. -/
def splitTop (isSeparator : Char → Bool) (text : List Char) : List (List Char) :=
  splitTopFrom isSeparator none 0 [] text

/-! ### Parentheses around everything -/

/-- Whether a closing parenthesis brings the depth back to zero before the last character. -/
def closesEarly : (depth : Nat) → List Char → Bool
  | _, [] => false
  | depth, c :: cs =>
    if c = '(' then closesEarly (depth + 1) cs
    else if c = ')' then (depth == 1 && !cs.isEmpty) || closesEarly (depth - 1) cs
    else closesEarly depth cs

/-- The trimmed text without the pair of parentheses around all of it, if there is one. -/
def stripParens (text : List Char) : List Char :=
  let t := trim text
  if t.head? = some '(' ∧ t.getLast? = some ')' then
    if closesEarly 0 t then t else trim (t.drop 1).dropLast
  else t

/-! ### Chains of calls -/

/-- Whether a chained call stands here: a point, one of three names, and a parenthesis, with blanks
between them. -/
def chainCallHere : List Char → Bool
  | '.' :: cs =>
    let cs := cs.dropWhile isBlank
    ["then", "catch", "finally"].any fun name =>
      match name.toList.isPrefixOf? cs with
      | none => false
      | some rest => (rest.dropWhile isBlank).head? == some '('
  | _ => false

/-- Whether a chained call occurs anywhere. -/
def hasChainCall : List Char → Bool
  | [] => false
  | c :: cs => chainCallHere (c :: cs) || hasChainCall cs

/-- The pieces between the points of chained calls outside brackets and quotes. -/
def chainFrom : (state : GroupState) → (depth : Nat) → (piece : List Char) → List Char →
    List (List Char)
  | _, _, piece, [] => [piece.reverse]
  | .escape q, depth, piece, c :: cs => chainFrom (.quote q) depth (c :: piece) cs
  | .quote q, depth, piece, c :: cs =>
    let next := if c = '\\' then GroupState.escape q else if c = q then .code else .quote q
    chainFrom next depth (c :: piece) cs
  | .code, depth, piece, c :: cs =>
    if isQuote c then chainFrom (.quote c) depth (c :: piece) cs
    else if isOpening c then chainFrom .code (depth + 1) (c :: piece) cs
    else if isClosing c then chainFrom .code (depth - 1) (c :: piece) cs
    else if depth == 0 && chainCallHere (c :: cs) then piece.reverse :: chainFrom .code depth [] cs
    else chainFrom .code depth (c :: piece) cs

/-- A text split at its chained calls. The pieces are trimmed, semicolons at their ends go, and blank
ones are left out; a text without a chained call is left as it is. -/
def splitChain (text : List Char) : List (List Char) :=
  match chainFrom .code 0 [] text with
  | [_] => [text]
  | pieces =>
    (pieces.filter fun p => !allBlank p).map fun p =>
      trim (dropEndWhile (· == ';') (trim p))

end Flowchart.Text
