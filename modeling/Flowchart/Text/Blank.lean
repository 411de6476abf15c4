import Flowchart.Text.Class

/-!
# Trimming and collapsing blanks

Cutting blanks off the ends of a text and writing every inner run of them as one space. Scanners
work on `List Char`; the versions on `String` wrap them.
-/

namespace Flowchart.Text

/-- The text without the blanks at its start. -/
def trimStart (cs : List Char) : List Char := cs.dropWhile isBlank

/-- The text without the characters of class `p` at its end. -/
def dropEndWhile (p : Char → Bool) (cs : List Char) : List Char :=
  (cs.reverse.dropWhile p).reverse

/-- The text without the blanks at its end. -/
def trimEnd (cs : List Char) : List Char := dropEndWhile isBlank cs

/-- The text without the blanks at both ends. -/
def trim (cs : List Char) : List Char := trimEnd (trimStart cs)

/-- Each maximal run of blanks as one space; `inRun` says that a run is under way. -/
def squeezeFrom : (inRun : Bool) → List Char → List Char
  | _, [] => []
  | inRun, c :: cs =>
    if isBlank c then
      if inRun then squeezeFrom true cs else ' ' :: squeezeFrom true cs
    else c :: squeezeFrom false cs

/-- Each maximal run of blanks as one space. -/
def squeeze (cs : List Char) : List Char := squeezeFrom false cs

/-- The words of a text with single spaces between them, none at the ends. -/
def normalize (cs : List Char) : List Char := trim (squeeze cs)

/-- Whether the text holds nothing but blanks. -/
def allBlank (cs : List Char) : Bool := cs.all isBlank

/-- The maximal runs of non-blank characters; `word` is the run under way, reversed. -/
def wordsFrom : (word : List Char) → List Char → List (List Char)
  | [], [] => []
  | w :: ws, [] => [(w :: ws).reverse]
  | word, c :: cs =>
    if isBlank c then
      if word.isEmpty then wordsFrom [] cs else word.reverse :: wordsFrom [] cs
    else wordsFrom (c :: word) cs

/-- The maximal runs of non-blank characters of a text. -/
def words (cs : List Char) : List (List Char) := wordsFrom [] cs

end Flowchart.Text

namespace Flowchart

/-- Whether a string holds nothing but blanks. -/
def isBlankText (s : String) : Bool := Text.allBlank s.toList

end Flowchart
