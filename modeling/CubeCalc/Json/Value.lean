import CubeCalc.Decimal.Layout
/-!
# JSON values

Objects keep the order of their fields, and numbers written without point and exponent stay whole.
-/

namespace CubeCalc

inductive Json where
  | null
  | bool (value : Bool)
  | int (value : Int)
  | float (value : Float)
  | string (value : String)
  | array (items : List Json)
  | object (fields : List (String × Json))
  deriving Repr, Inhabited

namespace Json

/-- A number that JSON cannot write is null. -/
def ofFloat (x : Float) : Json := if x.isFinite then .float x else .null

def names (members : List String) : Json := .array (members.map .string)

def field? (fields : List (String × Json)) (key : String) : Option Json :=
  (fields.find? fun field => field.1 == key).map (·.2)

/-- The field of an object. Other values have none. -/
def get? (json : Json) (key : String) : Option Json :=
  match json with
  | .object fields => field? fields key
  | _ => none

/-- The key is compared with the keys in place, and an equal one gives way. -/
def insertField (key : String) (value : Json) : List (String × Json) → List (String × Json)
  | [] => [(key, value)]
  | (k, v) :: rest =>
    if key = k then (key, value) :: rest
    else if key < k then (key, value) :: (k, v) :: rest
    else (k, v) :: insertField key value rest

mutual

/-- Objects with their fields in the order of the keys, the last of equal keys kept. -/
def sorted : Json → Json
  | .array items => .array (sortedItems items)
  | .object fields =>
    .object ((sortedFields fields).foldl (fun acc field => insertField field.1 field.2 acc) [])
  | other => other

def sortedItems : List Json → List Json
  | [] => []
  | item :: rest => item.sorted :: sortedItems rest

def sortedFields : List (String × Json) → List (String × Json)
  | [] => []
  | (key, value) :: rest => (key, value.sorted) :: sortedFields rest

end

end Json

end CubeCalc
