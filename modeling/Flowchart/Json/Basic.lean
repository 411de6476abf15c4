/-!
# JSON values

Whole numbers are kept apart from numbers with a point or an exponent, and the fields of an object
keep the order in which their names first occur. `put` gives a name its last value at its first
place.
-/

namespace Flowchart

/-- A JSON value. -/
inductive Json where
  | null
  | bool (value : Bool)
  | int (value : Int)
  | float (value : Float)
  | str (value : String)
  | arr (items : List Json)
  | obj (fields : List (String × Json))
  deriving Inhabited

/-- Sets the value of a name in a list of named values: in place if the name is there, at the end
otherwise. -/
def put {α : Type} (fields : List (String × α)) (name : String) (value : α) : List (String × α) :=
  match fields with
  | [] => [(name, value)]
  | (n, v) :: rest => if n = name then (n, value) :: rest else (n, v) :: put rest name value

/-- The value of a name in a list of named values. -/
def get? {α : Type} (fields : List (String × α)) (name : String) : Option α :=
  match fields with
  | [] => none
  | (n, v) :: rest => if n = name then some v else get? rest name

/-- Named values in the order given, each name at its first place with its last value. -/
def putAll {α : Type} (fields : List (String × α)) : List (String × α) :=
  fields.foldl (fun acc (n, v) => put acc n v) []

namespace Json

/-- The value of a field, if `j` is an object that has it. -/
def field? (j : Json) (name : String) : Option Json :=
  match j with
  | .obj fields => get? fields name
  | _ => none

/-- Whether a value counts as absent: null, false, zero, and the empty text, list and object. -/
def isEmpty : Json → Bool
  | .null => true
  | .bool b => !b
  | .int n => n == 0
  | .float x => x == 0.0
  | .str s => s.isEmpty
  | .arr items => items.isEmpty
  | .obj fields => fields.isEmpty

mutual
/-- The number of levels of a value. -/
def height : Json → Nat
  | .arr items => heightOfItems items + 1
  | .obj fields => heightOfFields fields + 1
  | _ => 1

/-- The number of levels of the highest of some values. -/
def heightOfItems : List Json → Nat
  | [] => 0
  | j :: js => max (height j) (heightOfItems js)

/-- The number of levels of the highest of some fields. -/
def heightOfFields : List (String × Json) → Nat
  | [] => 0
  | (_, j) :: fields => max (height j) (heightOfFields fields)
end

end Json

end Flowchart
