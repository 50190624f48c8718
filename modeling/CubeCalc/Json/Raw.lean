import CubeCalc.Json.Token
/-!
# Well-formed JSON

A text that keeps to the grammar of JSON is a tree, whether or not its texts and numbers can be read
and however deep it is. A machine takes one token at a time and keeps the containers that are still
open on a stack.
-/

namespace CubeCalc.Json

inductive Raw where
  | null
  | bool (value : Bool)
  | numeral (value : Numeral)
  | text (value? : Option String)
  | array (items : List Raw)
  | object (fields : List (Option String × Raw))

namespace Raw

/-- An open container with what it holds so far, in reverse. -/
inductive Frame where
  | array (items : List Raw)
  /-- The key is the one whose value is being read. -/
  | object (fields : List (Option String × Raw)) (key? : Option String)

inductive Reader where
  | value (stack : List Frame)
  | firstItem (stack : List Frame)
  | firstKey (stack : List Frame)
  | nextKey (fields : List (Option String × Raw)) (stack : List Frame)
  | colon (fields : List (Option String × Raw)) (key? : Option String) (stack : List Frame)
  | separator (frame : Frame) (stack : List Frame)
  | done (result : Raw)

namespace Reader

/-- Hands a finished value to the container it stands in. -/
def place (result : Raw) : List Frame → Reader
  | [] => .done result
  | .array items :: stack => .separator (.array (result :: items)) stack
  | .object fields key? :: stack => .separator (.object ((key?, result) :: fields) key?) stack

def start? (stack : List Frame) : Token → Option Reader
  | .openArray => some (.firstItem stack)
  | .openObject => some (.firstKey stack)
  | .text value? => some (place (.text value?) stack)
  | .null => some (place .null stack)
  | .bool b => some (place (.bool b) stack)
  | .numeral n => some (place (.numeral n) stack)
  | _ => none

def step? (reader : Reader) (token : Token) : Option Reader :=
  match reader, token with
  | .value stack, token => start? stack token
  | .firstItem stack, .closeArray => some (place (.array []) stack)
  | .firstItem stack, token => start? (.array [] :: stack) token
  | .firstKey stack, .closeObject => some (place (.object []) stack)
  | .firstKey stack, .text key? => some (.colon [] key? stack)
  | .nextKey fields stack, .text key? => some (.colon fields key? stack)
  | .colon fields key? stack, .colon => some (.value (.object fields key? :: stack))
  | .separator (.array items) stack, .comma => some (.value (.array items :: stack))
  | .separator (.array items) stack, .closeArray => some (place (.array items.reverse) stack)
  | .separator (.object fields _) stack, .comma => some (.nextKey fields stack)
  | .separator (.object fields _) stack, .closeObject =>
    some (place (.object fields.reverse) stack)
  | _, _ => none

end Reader

def ofTokens? (tokens : List Token) : Option Raw :=
  match tokens.foldlM Reader.step? (.value []) with
  | some (.done result) => some result
  | _ => none

/-- The one value that a text writes. Nothing but blanks may surround it. -/
def ofText? (s : String) : Option Raw := (Token.ofText? s).bind ofTokens?

end Raw

end CubeCalc.Json
