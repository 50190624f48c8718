import CubeCalc.Cell
import CubeCalc.Json.Parser
import CubeCalc.Json.Printer
/-!
# Cells in JSON

An empty cell is written as its name, and any other as an object with the name of its kind for the
only key.
-/

namespace CubeCalc.Cell

def toJson : Cell → Json
  | .empty => .string "Empty"
  | .number x => .object [("Number", .ofFloat x.toFloat)]
  | .text s => .object [("Text", .string s)]
  | .boolean b => .object [("Boolean", .bool b)]
  | .error .value => .object [("Error", .string "Value")]

/-- The one cause of errors, by name or as a key without a value. -/
def errorOfJson? : Json → Option CellError
  | .string "Value" | .object [("Value", .null)] => some .value
  | _ => none

/-- A whole number is read as the nearest double. -/
def ofJson? : Json → Option Cell
  | .string "Empty" | .object [("Empty", .null)] => some .empty
  | .object [("Number", .int n)] => some (.number (.ofFloat (Float.ofInt n)))
  | .object [("Number", .float x)] => some (.number (.ofFloat x))
  | .object [("Text", .string s)] => some (.text s)
  | .object [("Boolean", .bool b)] => some (.boolean b)
  | .object [("Error", cause)] => (errorOfJson? cause).map .error
  | _ => none

def ofText? (s : String) : Option Cell := (Json.parse? Json.depthLimit s).bind ofJson?

end CubeCalc.Cell
