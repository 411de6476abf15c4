import Flowchart.Decimal.Text
import Flowchart.Json.Basic

/-!
# Reading JSON

`Json.read?` reads a text that is one JSON value between blanks. Beyond the standard it accepts
`NaN`, `Infinity` and `-Infinity`. A number with a point or an exponent becomes a double, which may
be infinite; any other number a whole number of at most `Decimal.maxDigits` digits. A repeated field
keeps its first place and its last value.

How many levels a value may have is a parameter of the reader, `maxHeight`: a reader that calls itself
for each level can go down only so far, and how far depends on what else there is in its way.
`usualHeight` is what there is in practice.

A string is read as a list of 16-bit units and characters (`readUnits`), in which a pair of escaped
surrogates then becomes one character (`joinUnits`).
-/

namespace Flowchart.Json

/-- The four blanks of JSON. -/
def isSpace (c : Char) : Bool := c == ' ' || c == '\t' || c == '\n' || c == '\r'

/-- The text without the blanks at its start. -/
def skipSpace (cs : List Char) : List Char := cs.dropWhile isSpace

/-- The value of a hexadecimal digit. -/
def hexDigit? (c : Char) : Option Nat :=
  if c.isDigit then some (c.toNat - 0x30)
  else if 'a' ≤ c ∧ c ≤ 'f' then some (c.toNat - 0x61 + 10)
  else if 'A' ≤ c ∧ c ≤ 'F' then some (c.toNat - 0x41 + 10)
  else none

/-- Where a scan through a string stands: between characters, after a backslash, or inside a
numbered escape with some digits owed. -/
inductive StringState where
  | plain
  | escape
  | hex (owed value : Nat)

/-- The character a one-letter escape stands for. -/
def escaped? : Char → Option Char
  | '"' => some '"'
  | '\\' => some '\\'
  | '/' => some '/'
  | 'b' => some '\x08'
  | 'f' => some '\x0c'
  | 'n' => some '\n'
  | 'r' => some '\r'
  | 't' => some '\t'
  | _ => none

/-- The units of a string up to its closing quote, and the text after it. -/
def readUnits : StringState → List Char → Option (List Nat × List Char)
  | _, [] => none
  | .plain, c :: cs =>
    if c = '"' then some ([], cs)
    else if c = '\\' then readUnits .escape cs
    else if c.toNat < 0x20 then none
    else do
      let (units, rest) ← readUnits .plain cs
      return (c.toNat :: units, rest)
  | .escape, c :: cs =>
    if c = 'u' then readUnits (.hex 4 0) cs
    else do
      let e ← escaped? c
      let (units, rest) ← readUnits .plain cs
      return (e.toNat :: units, rest)
  | .hex owed value, c :: cs => do
    let d ← hexDigit? c
    let value := value * 16 + d
    if owed ≤ 1 then
      let (units, rest) ← readUnits .plain cs
      return (value :: units, rest)
    else readUnits (.hex (owed - 1) value) cs

/-- The text of a list of units: a high surrogate and the low one after it are one character. -/
def joinUnits : List Nat → List Char
  | [] => []
  | [u] => [if 0xD800 ≤ u ∧ u ≤ 0xDFFF then '\uFFFD' else Char.ofNat u]
  | u :: v :: us =>
    if 0xD800 ≤ u ∧ u ≤ 0xDBFF ∧ 0xDC00 ≤ v ∧ v ≤ 0xDFFF then
      Char.ofNat (0x10000 + (u - 0xD800) * 0x400 + (v - 0xDC00)) :: joinUnits us
    else
      (if 0xD800 ≤ u ∧ u ≤ 0xDFFF then '\uFFFD' else Char.ofNat u) :: joinUnits (v :: us)

/-- Reads a string whose opening quote has been read. -/
def readString (cs : List Char) : Option (String × List Char) := do
  let (units, rest) ← readUnits .plain cs
  return (String.ofList (joinUnits units), rest)

/-- The value of a list of ASCII digits. -/
def digitsValue (ds : List Char) : Nat :=
  Decimal.ofDigits (ds.map fun d => d.toNat - 0x30)

/-- The fraction at the start of a text: a point and at least one digit, or nothing. -/
def readFraction (cs : List Char) : List Char × List Char :=
  match cs with
  | '.' :: rest =>
    let ds := rest.takeWhile Char.isDigit
    if ds.isEmpty then ([], cs) else (ds, rest.dropWhile Char.isDigit)
  | _ => ([], cs)

/-- The exponent at the start of a text: its letter, a sign or none, and at least one digit; or
nothing. -/
def readExponent (cs : List Char) : Option Int × List Char :=
  match cs with
  | c :: rest =>
    if c = 'e' ∨ c = 'E' then
      let (below, rest) := Decimal.takeSign rest
      let ds := rest.takeWhile Char.isDigit
      if ds.isEmpty then (none, cs)
      else
        let e : Int := digitsValue ds
        (some (if below then -e else e), rest.dropWhile Char.isDigit)
    else (none, cs)
  | [] => (none, cs)

/-- Reads a number whose sign has been read. -/
def readNumber (negative : Bool) (cs : List Char) : Option (Json × List Char) :=
  let (whole, rest) := match cs with
    | '0' :: rest => (['0'], rest)
    | cs => (cs.takeWhile Char.isDigit, cs.dropWhile Char.isDigit)
  if whole.isEmpty then none
  else
    let (fraction, rest) := readFraction rest
    let (exponent, rest) := readExponent rest
    match fraction, exponent with
    | [], none =>
      if whole.length ≤ Decimal.maxDigits then
        let n : Int := digitsValue whole
        some (.int (if negative then -n else n), rest)
      else none
    | fraction, exponent =>
      let e := exponent.getD 0 - fraction.length
      some (.float (Decimal.signed negative
        (Decimal.toFloat (digitsValue (whole ++ fraction)) e)), rest)

/-- The words that are values. -/
def constants : List (List Char × Json) :=
  [("null".toList, .null), ("true".toList, .bool true), ("false".toList, .bool false),
    ("NaN".toList, .float (Float.ofBits 0x7FF8000000000000)),
    ("Infinity".toList, .float (Float.ofBits 0x7FF0000000000000)),
    ("-Infinity".toList, .float (Float.ofBits 0xFFF0000000000000))]

/-- Reads a value that is neither a string, a list nor an object. -/
def readScalar (cs : List Char) : Option (Json × List Char) :=
  match constants.findSome? fun (word, value) =>
      (word.isPrefixOf? cs).map fun rest => (value, rest) with
  | some found => some found
  | none =>
    match cs with
    | '-' :: rest => readNumber true rest
    | _ => readNumber false cs

mutual
/-- Reads the value at the start of a text. -/
def readValue : (fuel : Nat) → List Char → Option (Json × List Char)
  | 0, _ => none
  | fuel + 1, cs =>
    match cs with
    | '"' :: rest => do
      let (s, rest) ← readString rest
      return (.str s, rest)
    | '[' :: rest =>
      match skipSpace rest with
      | ']' :: rest => some (.arr [], rest)
      | rest => do
        let (items, rest) ← readItems fuel rest
        return (.arr items, rest)
    | '\x7b' :: rest =>
      match skipSpace rest with
      | '\x7d' :: rest => some (.obj [], rest)
      | rest => do
        let (fields, rest) ← readFields fuel rest
        return (.obj (putAll fields), rest)
    | _ => readScalar cs

/-- Reads items separated by commas up to the closing bracket. -/
def readItems : (fuel : Nat) → List Char → Option (List Json × List Char)
  | 0, _ => none
  | fuel + 1, cs => do
    let (item, rest) ← readValue fuel cs
    match skipSpace rest with
    | ']' :: rest => some ([item], rest)
    | ',' :: rest =>
      let (items, rest) ← readItems fuel (skipSpace rest)
      return (item :: items, rest)
    | _ => none

/-- Reads fields separated by commas up to the closing brace. -/
def readFields : (fuel : Nat) → List Char → Option (List (String × Json) × List Char)
  | 0, _ => none
  | fuel + 1, cs =>
    match cs with
    | '"' :: rest => do
      let (name, rest) ← readString rest
      match skipSpace rest with
      | ':' :: rest =>
        let (value, rest) ← readValue fuel (skipSpace rest)
        match skipSpace rest with
        | '\x7d' :: rest => some ([(name, value)], rest)
        | ',' :: rest =>
          let (fields, rest) ← readFields fuel (skipSpace rest)
          return ((name, value) :: fields, rest)
        | _ => none
      | _ => none
    | _ => none
end

/-- How many levels there is room for as a rule. -/
def usualHeight : Nat := 990

/-- The JSON value of at most `maxHeight` levels that a text spells; none if it spells none. -/
def read? (maxHeight : Nat) (text : String) : Option Json :=
  let cs := text.toList
  match readValue (cs.length + 1) (skipSpace cs) with
  | some (value, rest) =>
    if (skipSpace rest).isEmpty && value.height ≤ maxHeight then some value else none
  | none => none

end Flowchart.Json
