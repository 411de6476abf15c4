import Flowchart.Text.Class

/-!
# Letter case

Matching against ASCII words without regard to case. Four characters outside ASCII have an ASCII
letter as their partner: the dotted capital and the dotless small `i`, the long `s` and the Kelvin
sign. `fold` maps every character to the ASCII letter it matches, and to itself if there is none.
-/

namespace Flowchart.Text

/-- The small ASCII letter that matches `c` when case is ignored, else `c` itself. -/
def fold (c : Char) : Char :=
  if c.toNat < 0x80 then c.toLower
  else if c = '\u0130' ∨ c = '\u0131' then 'i'
  else if c = '\u017F' then 's'
  else if c = '\u212A' then 'k'
  else c

/-- What follows the small ASCII word `word` if the text starts with it, case ignored. -/
def foldedPrefix? : (word text : List Char) → Option (List Char)
  | [], text => some text
  | _ :: _, [] => none
  | w :: word, c :: text => if fold c = w then foldedPrefix? word text else none

/-- Whether the small ASCII word `word` occurs in the text, case ignored. -/
def occursFolded (word : List Char) : List Char → Bool
  | [] => word.isEmpty
  | c :: cs => (foldedPrefix? word (c :: cs)).isSome || occursFolded word cs

/-- The text in small letters, as far as these are ASCII: the Kelvin sign has the small letter `k`,
and the dotted capital `i` keeps its dot as a combining mark. -/
def lower (cs : List Char) : List Char :=
  cs.flatMap fun c =>
    if c = '\u212A' then ['k'] else if c = '\u0130' then ['i', '\u0307'] else [c.toLower]

end Flowchart.Text
