import CubeCalc.Json.Value
import CubeCalc.Text.Quoted
/-!
# Compact JSON text

Nothing but the values and their punctuation is written, and a double is written with the fewest
digits that read back.
-/

namespace CubeCalc.Json

/-- Numbers from 0.00001 up to 10^16 are written without an exponent, whole ones with `.0`, and a
digit halfway between two goes to the even one. -/
def numberLayout : Decimal.Layout := ⟨.even, some (-5, 15), ".0"⟩

def floatText (x : Float) : String :=
  if x.isFinite then numberLayout.render x else "null"

mutual

def text : Json → String
  | .null => "null"
  | .bool true => "true"
  | .bool false => "false"
  | .int n => toString n
  | .float x => floatText x
  | .string s => Text.quoteJson s
  | .array items => "[" ++ itemsText items ++ "]"
  | .object fields => "\x7b" ++ fieldsText fields ++ "\x7d"

def itemsText : List Json → String
  | [] => ""
  | [item] => item.text
  | item :: rest => item.text ++ "," ++ itemsText rest

def fieldsText : List (String × Json) → String
  | [] => ""
  | [(key, value)] => Text.quoteJson key ++ ":" ++ value.text
  | (key, value) :: rest => Text.quoteJson key ++ ":" ++ value.text ++ "," ++ fieldsText rest

end

end CubeCalc.Json
