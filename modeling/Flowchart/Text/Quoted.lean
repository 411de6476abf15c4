import Flowchart.Text.Class

/-!
# Quoted text in messages

A text between quotes as messages show it: single quotes unless the text holds a single quote and no
double one; the quote in use, the backslash and the three common control characters escaped by a
backslash; all other characters without a printed form by their number.
-/

namespace Flowchart.Text.Quoted

/-- The last `width` hexadecimal digits of `n`. -/
def hex : (width n : Nat) → List Char
  | 0, _ => []
  | width + 1, n => hex width (n / 16) ++ [Nat.digitChar (n % 16)]

/-- One character between the quotes `quote`. -/
def encodeChar (quote c : Char) : List Char :=
  if c = quote ∨ c = '\\' then ['\\', c]
  else if c = '\t' then ['\\', 't']
  else if c = '\n' then ['\\', 'n']
  else if c = '\r' then ['\\', 'r']
  else if isPrintable c then [c]
  else if c.toNat < 0x100 then '\\' :: 'x' :: hex 2 c.toNat
  else if c.toNat < 0x10000 then '\\' :: 'u' :: hex 4 c.toNat
  else '\\' :: 'U' :: hex 8 c.toNat

/-- The quote a text is shown in. -/
def quoteFor (cs : List Char) : Char :=
  if cs.contains '\'' && !cs.contains '"' then '"' else '\''

/-- A text between quotes. -/
def encode (cs : List Char) : List Char :=
  let quote := quoteFor cs
  quote :: cs.flatMap (encodeChar quote) ++ [quote]

end Flowchart.Text.Quoted

namespace Flowchart

/-- `Text.Quoted.encode` on strings. -/
def quoted (s : String) : String := String.ofList (Text.Quoted.encode s.toList)

end Flowchart
