/-!
# Lines

Two ways of cutting a text into lines, and the line ends a text file is read with.

* `lines` cuts at every line end of Unicode: the ASCII ones, vertical tab and form feed, the three
  separators `U+001C`–`U+001E`, next line, line separator and paragraph separator. A carriage return
  and the line feed after it are one line end, and a line end at the end of the text starts no
  further line.
* `sourceLines` cuts at line feeds and carriage returns alone and keeps the line ends, as source
  positions count them.
* `universal` writes every line end of a text file as a line feed.
-/

namespace Flowchart.Text

/-- A line end of Unicode. -/
def isLineEnd (c : Char) : Bool :=
  let n := c.toNat
  (10 ≤ n && n ≤ 13) || (0x1C ≤ n && n ≤ 0x1E) || n == 0x85 || n == 0x2028 || n == 0x2029

/-- The lines of a text without their ends; `line` is the line under way, reversed. -/
def linesFrom : (line : List Char) → List Char → List (List Char)
  | [], [] => []
  | line@(_ :: _), [] => [line.reverse]
  | line, '\r' :: '\n' :: cs => line.reverse :: linesFrom [] cs
  | line, c :: cs =>
    if isLineEnd c then line.reverse :: linesFrom [] cs else linesFrom (c :: line) cs

/-- The lines of a text without their ends. -/
def lines (cs : List Char) : List (List Char) := linesFrom [] cs

/-- The lines of a source text with their ends; `line` is the line under way, reversed. -/
def sourceLinesFrom : (line : List Char) → List Char → List (List Char)
  | [], [] => []
  | line@(_ :: _), [] => [line.reverse]
  | line, '\r' :: '\n' :: cs => ('\n' :: '\r' :: line).reverse :: sourceLinesFrom [] cs
  | line, c :: cs =>
    if c = '\n' ∨ c = '\r' then (c :: line).reverse :: sourceLinesFrom [] cs
    else sourceLinesFrom (c :: line) cs

/-- The lines of a source text with their ends. -/
def sourceLines (cs : List Char) : List (List Char) := sourceLinesFrom [] cs

/-- A text with every line end of a text file (`\r\n`, `\r`, `\n`) written as a line feed. -/
def universal : List Char → List Char
  | [] => []
  | '\r' :: '\n' :: cs => '\n' :: universal cs
  | c :: cs => (if c = '\r' then '\n' else c) :: universal cs

end Flowchart.Text
