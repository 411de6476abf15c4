import Flowchart.Decimal.Text
import Flowchart.Json.Basic
import Flowchart.Text.Quoted

/-!
# Writing values

`Json.write` writes JSON in ASCII: every character outside it becomes a numbered escape, one beyond
the first 2¹⁶ a pair of them. `Json.writeIndented` spreads lists and objects over lines.
`Json.display` is the text of a value for a reader: a text stands for itself, everything else is
written as `Json.literal`, where texts are quoted as in messages.
-/

namespace Flowchart.Json

/-- A 16-bit unit as a numbered escape. -/
def escapeUnit (u : Nat) : List Char := '\\' :: 'u' :: Text.Quoted.hex 4 u

/-- One character of a JSON string. -/
def escapeChar (c : Char) : List Char :=
  let n := c.toNat
  if c = '"' ∨ c = '\\' then ['\\', c]
  else if c = '\n' then ['\\', 'n']
  else if c = '\r' then ['\\', 'r']
  else if c = '\t' then ['\\', 't']
  else if c = '\x08' then ['\\', 'b']
  else if c = '\x0c' then ['\\', 'f']
  else if 0x20 ≤ n ∧ n < 0x7F then [c]
  else if n < 0x10000 then escapeUnit n
  else
    escapeUnit (0xD800 + (n - 0x10000) / 0x400) ++ escapeUnit (0xDC00 + (n - 0x10000) % 0x400)

/-- A JSON string. -/
def writeString (s : String) : String :=
  String.ofList ('"' :: s.toList.flatMap escapeChar ++ ['"'])

/-- How JSON names the doubles without digits. -/
def floatNames : Decimal.Names := ⟨"NaN", "Infinity"⟩

/-- A double in JSON. -/
def writeFloat (x : Float) : String := (Decimal.Value.ofFloat x).text floatNames

/-- What stands between items, and between a name and its value. -/
structure Separators where
  item : String
  field : String

/-- Separators followed by a space. -/
def spaced : Separators := ⟨", ", ": "⟩

/-- Separators alone. -/
def tight : Separators := ⟨",", ":"⟩

mutual
/-- A value on one line. -/
def write (sep : Separators) : Json → String
  | .null => "null"
  | .bool b => if b then "true" else "false"
  | .int n => toString n
  | .float x => writeFloat x
  | .str s => writeString s
  | .arr items => "[" ++ writeItems sep items ++ "]"
  | .obj fields => "\x7b" ++ writeFields sep fields ++ "\x7d"

/-- The items of a list on one line. -/
def writeItems (sep : Separators) : List Json → String
  | [] => ""
  | [j] => write sep j
  | j :: js => write sep j ++ sep.item ++ writeItems sep js

/-- The fields of an object on one line. -/
def writeFields (sep : Separators) : List (String × Json) → String
  | [] => ""
  | [(name, j)] => writeString name ++ sep.field ++ write sep j
  | (name, j) :: fields =>
    writeString name ++ sep.field ++ write sep j ++ sep.item ++ writeFields sep fields
end

/-- A line end and the indentation of depth `depth`. -/
def newline (depth : Nat) : String := "\n" ++ String.ofList (List.replicate (2 * depth) ' ')

mutual
/-- A value with every item and field on a line of its own, two spaces deeper than its list or
object. -/
def writeIndented (depth : Nat) : Json → String
  | .arr (j :: js) =>
    "[" ++ newline (depth + 1) ++ writeIndented (depth + 1) j ++
      writeItemLines (depth + 1) js ++ newline depth ++ "]"
  | .obj ((name, j) :: fields) =>
    "\x7b" ++ newline (depth + 1) ++ writeString name ++ ": " ++ writeIndented (depth + 1) j ++
      writeFieldLines (depth + 1) fields ++ newline depth ++ "\x7d"
  | .arr [] => "[]"
  | .obj [] => "\x7b\x7d"
  | .null => "null"
  | .bool b => if b then "true" else "false"
  | .int n => toString n
  | .float x => writeFloat x
  | .str s => writeString s

/-- The items after the first, each after a comma and a line end. -/
def writeItemLines (depth : Nat) : List Json → String
  | [] => ""
  | j :: js => "," ++ newline depth ++ writeIndented depth j ++ writeItemLines depth js

/-- The fields after the first, each after a comma and a line end. -/
def writeFieldLines (depth : Nat) : List (String × Json) → String
  | [] => ""
  | (name, j) :: fields =>
    "," ++ newline depth ++ writeString name ++ ": " ++ writeIndented depth j ++
      writeFieldLines depth fields
end

/-- How messages name the doubles without digits. -/
def literalNames : Decimal.Names := ⟨"nan", "inf"⟩

mutual
/-- A value as messages show it, texts between quotes. -/
def literal : Json → String
  | .null => "None"
  | .bool b => if b then "True" else "False"
  | .int n => toString n
  | .float x => (Decimal.Value.ofFloat x).text literalNames
  | .str s => quoted s
  | .arr items => "[" ++ literalItems items ++ "]"
  | .obj fields => "\x7b" ++ literalFields fields ++ "\x7d"

/-- The items of a list as messages show them. -/
def literalItems : List Json → String
  | [] => ""
  | [j] => literal j
  | j :: js => literal j ++ ", " ++ literalItems js

/-- The fields of an object as messages show them. -/
def literalFields : List (String × Json) → String
  | [] => ""
  | [(name, j)] => quoted name ++ ": " ++ literal j
  | (name, j) :: fields => quoted name ++ ": " ++ literal j ++ ", " ++ literalFields fields
end

/-- The text of a value: a text stands for itself. -/
def display : Json → String
  | .str s => s
  | j => literal j

end Flowchart.Json
