/-!
# The shortest decimal of a binary number

A finite double is `m · 2 ^ q` with natural `m`, and the reals that round to it form an interval,
its ends included exactly when `m` is even. `shortest` finds the decimal with the fewest digits in
that interval: it tries the decimal grids of 1, 2, … 17 digits in turn and, on the first grid that
meets the interval, takes the point nearest to the number. All arithmetic is exact, on natural
numbers.
-/

namespace Flowchart.Decimal

/-- A decimal fraction `0.d₁d₂… · 10 ^ point` given by its digits. -/
structure Digits where
  digits : List Char
  point : Int
  deriving DecidableEq, Repr

/-- The sign, significand `m` and exponent `q` of a finite double `± m · 2 ^ q`. -/
structure Binary where
  negative : Bool
  significand : Nat
  exponent : Int
  deriving DecidableEq, Repr

/-- What the 64 bits of a double stand for. -/
inductive Value where
  | finite (b : Binary)
  | infinite (negative : Bool)
  | nan
  deriving DecidableEq, Repr

/-- The bit above the 52 fraction bits, which a normal number does not store. -/
def hiddenBit : Nat := Nat.pow 2 52

/-- The value of a double, read off its sign bit, eleven exponent bits and 52 fraction bits. -/
def Value.ofBits (bits : UInt64) : Value :=
  let n := bits.toNat
  let negative := n / Nat.pow 2 63 == 1
  let e : Nat := n / hiddenBit % Nat.pow 2 11
  let f : Nat := n % hiddenBit
  if e = 2047 then if f = 0 then .infinite negative else .nan
  else if e = 0 then .finite ⟨negative, f, -1074⟩
  else .finite ⟨negative, hiddenBit + f, (e : Int) - 1075⟩

/-- The value of a double. -/
def Value.ofFloat (x : Float) : Value := .ofBits x.toBits

/-- `n · base ^ e` as a fraction, for an exponent of either sign. -/
def scaled (n base : Nat) (e : Int) : Nat × Nat :=
  if 0 ≤ e then (n * Nat.pow base e.toNat, 1) else (n, Nat.pow base (-e).toNat)

/-- The number of decimal digits of `n`, one for zero. -/
def digitCount (n : Nat) : Nat := (Nat.toDigits 10 n).length

/-- The exponent `p` with `10 ^ (p - 1) ≤ num / den < 10 ^ p`, for a positive fraction. -/
def decimalExponent (num den : Nat) : Int :=
  let guess : Int := (digitCount num : Int) - digitCount den
  let (lnum, lden) := scaled den 10 guess
  -- `num / den` lies between `10 ^ (guess - 1)` and `10 ^ (guess + 1)`
  if num * lden < lnum then guess else guess + 1

/-- The nearest point of the grid of `count` digits that rounds to the number, if one does. The
number is `value / den`, the ends of its interval are `low / den` and `high / den`, and the grid is
that of the multiples of `10 ^ (point - count)`. -/
def onGrid? (value low high den : Nat) (closed : Bool) (point : Int) (count : Nat) :
    Option Nat :=
  let (unit, one) := scaled 1 10 (point - count)
  -- the multiple `k` of the grid unit is compared as `k * unit * den` with `x * one`
  let floor := value * one / (unit * den)
  let inside (k : Nat) : Bool :=
    let x := k * unit * den
    if closed then low * one ≤ x && x ≤ high * one else low * one < x && x < high * one
  let below := inside floor
  let above := inside (floor + 1)
  if below && above then
    let left := value * one - floor * unit * den
    let right := (floor + 1) * unit * den - value * one
    some (if left < right then floor else if right < left then floor + 1
      else if floor % 2 = 0 then floor else floor + 1)
  else if below then some floor
  else if above then some (floor + 1)
  else none

/-- The first grid from `count` digits on, of at most `fuel` grids, with a point that rounds to the
number; the point of the last grid otherwise. -/
def search (value low high den : Nat) (closed : Bool) (point : Int) :
    (fuel count : Nat) → Nat × Nat
  | 0, count => (value, count)
  | fuel + 1, count =>
    match onGrid? value low high den closed point count with
    | some k => (k, count)
    | none => search value low high den closed point fuel (count + 1)

/-- Digits without zeros at the end. -/
def dropZeros (ds : List Char) : List Char := (ds.reverse.dropWhile (· == '0')).reverse

/-- The shortest decimal that rounds to `m · 2 ^ q`; no digits for zero. -/
def shortest (m : Nat) (q : Int) : Digits :=
  if m = 0 then ⟨[], 1⟩
  else
    let (scale, den) := scaled 1 2 (q - 2)
    let value := 4 * m * scale
    let high := (4 * m + 2) * scale
    -- the interval is half as long towards zero where the binary exponent changes
    let low := (if m = hiddenBit ∧ -1074 < q then 4 * m - 1 else 4 * m - 2) * scale
    let point := decimalExponent value den
    let (k, count) := search value low high den (m % 2 == 0) point 17 1
    let ds := Nat.toDigits 10 k
    ⟨dropZeros ds, point + ((ds.length : Int) - count)⟩

/-- `num / den` rounded to a whole number, a half going to the even neighbour. -/
def roundHalfEven (num den : Nat) : Nat :=
  let k := num / den
  let rest := num % den
  if 2 * rest < den then k
  else if den < 2 * rest then k + 1
  else if k % 2 = 0 then k else k + 1

/-- A double rounded to a whole number, as text. -/
def wholeText : Value → String
  | .nan => "nan"
  | .infinite negative => if negative then "-inf" else "inf"
  | .finite ⟨negative, m, q⟩ =>
    let (num, den) := scaled m 2 q
    (if negative then "-" else "") ++ toString (roundHalfEven num den)

end Flowchart.Decimal
