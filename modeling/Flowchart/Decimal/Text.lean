import Flowchart.Decimal.Shortest
import Flowchart.Text.Blank

/-!
# Numbers as text

Writing doubles and reading numbers. A double is written with the fewest digits that read back: in
positional form while its first digit stands between the fourth place after the point and the
sixteenth before it, else with an exponent of at least two digits; a whole number keeps `.0`.

Readers accept blanks at the ends, a sign, digits of any script and single underscores between
digits. The separators among the control characters are no blanks here.
-/

namespace Flowchart.Decimal

/-- An exponent with its sign and at least two digits. -/
def exponentText (e : Int) : List Char :=
  let ds := Nat.toDigits 10 e.natAbs
  (if e < 0 then '-' else '+') :: (if ds.length < 2 then '0' :: ds else ds)

/-- The text of a positive decimal fraction. -/
def Digits.text (d : Digits) : List Char :=
  if d.digits.isEmpty then ['0', '.', '0']
  else if d.point ≤ -4 ∨ 16 < d.point then
    let mantissa := match d.digits with
      | [] => []
      | [c] => [c]
      | c :: cs => c :: '.' :: cs
    mantissa ++ 'e' :: exponentText (d.point - 1)
  else if d.point ≤ 0 then
    '0' :: '.' :: List.replicate (-d.point).toNat '0' ++ d.digits
  else
    let whole := d.point.toNat
    if d.digits.length ≤ whole then
      d.digits ++ List.replicate (whole - d.digits.length) '0' ++ ['.', '0']
    else d.digits.take whole ++ '.' :: d.digits.drop whole

/-- What the three values without digits are called. -/
structure Names where
  nan : String
  infinity : String

/-- The text of a double. -/
def Value.text (names : Names) : Value → String
  | .nan => names.nan
  | .infinite negative => if negative then "-" ++ names.infinity else names.infinity
  | .finite ⟨negative, m, q⟩ =>
    String.ofList ((if negative then ['-'] else []) ++ (shortest m q).text)

/-- The sign of a number text and what follows it. -/
def takeSign : List Char → Bool × List Char
  | '-' :: cs => (true, cs)
  | '+' :: cs => (false, cs)
  | cs => (false, cs)

/-- The digits of a text that holds digits and single underscores between them, and nothing else.
`afterDigit` says that the character before was a digit. -/
def digitsOnly? : (afterDigit : Bool) → List Char → Option (List Nat)
  | afterDigit, [] => if afterDigit then some [] else none
  | afterDigit, '_' :: cs => if afterDigit then digitsOnly? false cs else none
  | _, c :: cs => do
    let d ← Text.digit? c
    let ds ← digitsOnly? true cs
    return d :: ds

/-- The number with the given decimal digits. -/
def ofDigits (ds : List Nat) : Nat := ds.foldl (fun n d => 10 * n + d) 0

/-- Blanks that may stand around a number: all but the separators among the control characters. -/
def isPadding (c : Char) : Bool :=
  Text.isBlank c && !(0x1C ≤ c.toNat && c.toNat ≤ 0x1F)

/-- A text without the blanks around a number. -/
def unpadded (cs : List Char) : List Char :=
  Text.dropEndWhile isPadding (cs.dropWhile isPadding)

/-- The most digits a whole number may have when it is read from text. -/
def maxDigits : Nat := 4300

/-- The whole number a text spells, if it has at most `maxDigits` digits. -/
def readInt? (text : List Char) : Option Int := do
  let (negative, cs) := takeSign (unpadded text)
  let ds ← digitsOnly? false cs
  if ds.length ≤ maxDigits then
    let n := ofDigits ds
    return if negative then -(n : Int) else n
  else none

/-- The double nearest to `n · 10 ^ e`. -/
def toFloat (n : Nat) (e : Int) : Float :=
  let magnitude := (digitCount n : Int) + e
  if n = 0 then 0.0
  else if 400 < magnitude then Float.ofScientific 1 false 400
  else if magnitude < -400 then 0.0
  else Float.ofScientific n (e < 0) e.natAbs

/-- Changes the sign of a double if `negative`. -/
def signed (negative : Bool) (x : Float) : Float := if negative then -x else x

/-- The longest start of a text made of digits and single underscores between them; gives the digits
and the rest. An underscore that is not between digits is left in the rest. -/
def takeDigits : (afterDigit : Bool) → List Char → List Nat × List Char
  | _, [] => ([], [])
  | afterDigit, c :: cs =>
    match Text.digit? c with
    | some d =>
      let (ds, rest) := takeDigits true cs
      (d :: ds, rest)
    | none =>
      if c = '_' && afterDigit && cs.head?.any Text.isDigit then takeDigits false cs
      else ([], c :: cs)

/-- The double a text spells: a decimal number with an optional point and exponent, or the name of
an infinity or of the value that is no number. -/
def readFloat? (text : List Char) : Option Float :=
  let (negative, cs) := takeSign (unpadded text)
  let name := cs.map Char.toLower
  if name = "inf".toList ∨ name = "infinity".toList then
    some (signed negative (Float.ofBits 0x7FF0000000000000))
  else if name = "nan".toList then some (Float.ofBits 0x7FF8000000000000)
  else
    let (whole, cs) := takeDigits false cs
    let (fraction, cs) := match cs with
      | '.' :: cs => takeDigits false cs
      | cs => ([], cs)
    if whole.isEmpty && fraction.isEmpty then none
    else
      let exponent? : Option Int := match cs with
        | [] => some 0
        | c :: cs =>
          if c = 'e' ∨ c = 'E' then
            let (below, cs) := takeSign cs
            match takeDigits false cs with
            | (d :: ds, []) => some (if below then -(ofDigits (d :: ds) : Int) else ofDigits (d :: ds))
            | _ => none
          else none
      exponent?.map fun e =>
        signed negative (toFloat (ofDigits (whole ++ fraction)) (e - fraction.length))

end Flowchart.Decimal
