import CubeCalc.Json.Raw
/-!
# Reading JSON values

A well-formed text has a value if its texts stand for characters, its numbers are in the range of
doubles, and its containers are not nested too deep.
-/

namespace CubeCalc.Json

namespace Raw

mutual

/-- The value, with no more than a number of containers one inside the other. -/
def toJson? (depthLimit : Nat) : Raw → Option Json
  | .null => some .null
  | .bool b => some (.bool b)
  | .numeral n =>
    match n.toJson with
    | .float x => if x.isFinite then some (.float x) else none
    | number => some number
  | .text value? => value?.map .string
  | .array items =>
    match depthLimit with
    | 0 => none
    | depthLimit + 1 => (itemsToJson? depthLimit items).map .array
  | .object fields =>
    match depthLimit with
    | 0 => none
    | depthLimit + 1 => (fieldsToJson? depthLimit fields).map .object

def itemsToJson? (depthLimit : Nat) : List Raw → Option (List Json)
  | [] => some []
  | item :: rest => do return (← item.toJson? depthLimit) :: (← itemsToJson? depthLimit rest)

def fieldsToJson? (depthLimit : Nat) : List (Option String × Raw) → Option (List (String × Json))
  | [] => some []
  | (key?, value) :: rest => do
    return (← key?, ← value.toJson? depthLimit) :: (← fieldsToJson? depthLimit rest)

end

end Raw

/-- How deep containers may be nested in a text that comes from outside. -/
def depthLimit : Nat := 127

def parse? (depthLimit : Nat) (s : String) : Option Json :=
  (Raw.ofText? s).bind fun raw => raw.toJson? depthLimit

end CubeCalc.Json
