import Flowchart.Settings

/-!
# Zoom

The zoom that fits a diagram to the width of its container, within bounds.
-/

namespace Flowchart

namespace Number

/-- The difference of two numbers; whole if both are. -/
def sub : Number → Number → Number
  | .whole a, .whole b => .whole (a - b)
  | a, b => .real (a.toFloat - b.toFloat)

/-- The double nearest to `num / den`: the quotient is taken to 64 binary digits, the last of which
also says whether something was left over, and rounded once. -/
def nearestQuotient (num den : Nat) : Float :=
  if num = 0 ∨ den = 0 then 0.0
  else
    let shift : Int := 63 + (Nat.log2 den : Int) - Nat.log2 num
    let n := if 0 ≤ shift then num * Nat.pow 2 shift.toNat else num
    let d := if 0 ≤ shift then den else den * Nat.pow 2 (-shift).toNat
    let q := if n % d = 0 then n / d else n / d ||| 1
    (Float.ofNat q).scaleB (-shift)

/-- The quotient of two numbers as a double. -/
def quotient : Number → Number → Float
  | .whole a, .whole b =>
    let q := nearestQuotient a.natAbs b.natAbs
    if decide (a < 0) != decide (b < 0) then -q else q
  | a, b => a.toFloat / b.toFloat

/-- Whether a number is greater than zero, or is no number. -/
def isPositive : Number → Bool
  | .whole n => 0 < n
  | .real x => !(x ≤ 0.0)

end Number

/-- The zoom that fits a diagram of width `chart` into a container: the ratio of the widths, some
room left, but not above and not below the bounds. Without two positive widths it is one. -/
def fitZoom (s : Settings) (container chart : Option Number) : Float :=
  match container, chart with
  | some w, some c =>
    if w.isPositive && c.isPositive then
      let ratio := (w.sub s.zoomMargin).quotient c
      let capped := if ratio < s.zoomMax then ratio else s.zoomMax
      if capped > s.zoomMin then capped else s.zoomMin
    else 1.0
  | _, _ => 1.0

end Flowchart
