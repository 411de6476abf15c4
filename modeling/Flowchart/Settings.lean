/-!
# Settings

The numbers and names that callers may change, with their defaults.
-/

namespace Flowchart

/-- A number given from outside, whole or not. -/
inductive Number where
  | whole (n : Int)
  | real (x : Float)

namespace Number

/-- The double nearest to a number. -/
def toFloat : Number → Float
  | .whole n => Float.ofInt n
  | .real x => x

end Number

/-- What callers may change. -/
structure Settings where
  /-- Limits of label length, by label mode; none is a limit that is of no use. -/
  lenientLimit : Option Int := some 50
  strictLimit : Option Int := some 30
  /-- The layout part of the diagram header. -/
  renderer : String := "elk"
  nodeSpacing : Int := 50
  rankSpacing : Int := 50
  maxTextSize : Int := 500000
  /-- Diagrams with a shorter body say nothing. -/
  minDiagramChars : Int := 8
  /-- How long a session waits for further edits, in thousandths of a second. -/
  debounce : Nat := 800
  /-- After how many seconds a render is given up, and the program that renders; no number of seconds
  is a limit that is of no use. -/
  renderTimeout : Option Float := some 30.0
  renderProgram : String := "mmdc"
  /-- The bounds of the zoom that fits a diagram to its container, and the room left beside it. -/
  zoomMin : Float := 0.5
  zoomMax : Float := 1.0
  zoomMargin : Number := .whole 40
  /-- The model that traces programs. -/
  model : String := "gpt-oss"

end Flowchart
