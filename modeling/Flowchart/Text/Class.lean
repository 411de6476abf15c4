import Flowchart.Text.Property

/-!
# Character classes

The four classes every scanner of this library is built from: blanks, word characters, decimal
digits and characters with a printed form. All of them cover the whole of Unicode. A word boundary
(`boundary`) is a place with a word character on exactly one side.
-/

namespace Flowchart.Text

/-- Characters that separate words: the ASCII blanks, the four information separators
`U+001C`–`U+001F`, and the Unicode spaces and line separators. -/
def isBlank (c : Char) : Bool :=
  let n := c.toNat
  (9 ≤ n && n ≤ 13) || (0x1C ≤ n && n ≤ 0x20) || n == 0x85 || n == 0xA0 || n == 0x1680 ||
    (0x2000 ≤ n && n ≤ 0x200A) || n == 0x2028 || n == 0x2029 || n == 0x202F || n == 0x205F ||
    n == 0x3000

/-- Letters, digits, other numerals and the underscore. -/
def isWord (c : Char) : Bool :=
  if c.toNat < 0x80 then c.isAlphanum || c == '_'
  else Property.inRanges Property.wordRanges c.toNat

/-- The value of a decimal digit of any script. -/
def digit? (c : Char) : Option Nat :=
  let n := c.toNat
  if n < 0x80 then if c.isDigit then some (n - 0x30) else none
  else (Property.decimalZeros.find? fun z => z ≤ n && n < z + 10).map (n - ·)

/-- Whether `c` is a decimal digit of some script. -/
def isDigit (c : Char) : Bool := (digit? c).isSome

/-- Whether `c` has a printed form of its own, the space included. -/
def isPrintable (c : Char) : Bool :=
  if c.toNat < 0x80 then 0x20 ≤ c.toNat && c.toNat < 0x7F
  else Property.inRanges Property.printableRanges c.toNat

/-- Whether there is a word character at a place that may lie outside the text. -/
def wordAt (c : Option Char) : Bool := c.any isWord

/-- A word boundary: exactly one of the two neighbours is a word character. -/
def boundary (before after : Option Char) : Bool := wordAt before != wordAt after

end Flowchart.Text
