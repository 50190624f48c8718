import CubeCalc.Json.Parser
import CubeCalc.Json.Printer
import CubeCalc.RowLimit
/-!
# Configuration

How many tuples a list may hold, and whether sets are evaluated in simplified contexts. Both may be
left out of a written configuration.
-/

namespace CubeCalc

structure CalcConfig where
  /-- Zero and the negative numbers stand for no limit. -/
  resultLimit : Int := 0
  simplifyContext : Bool := true
  deriving DecidableEq, Repr

namespace CalcConfig

def limit (config : CalcConfig) : RowLimit := .ofInt config.resultLimit

def toJson (config : CalcConfig) : Json :=
  .object [("resultLimit", .int config.resultLimit),
    ("simplifyContext", .bool config.simplifyContext)]

/-- Limits are whole numbers of 64 bits. -/
def limit? : Json → Option Int
  | .int n => if Int64.minValue.toInt ≤ n ∧ n ≤ Int64.maxValue.toInt then some n else none
  | _ => none

def switch? : Json → Option Bool
  | .bool b => some b
  | _ => none

/-- A field that is missing has its default. One that is given twice is refused. -/
def optional? {α : Type} (fields : List (String × Json)) (key : String) (read : Json → Option α)
    (default : α) : Option α :=
  match fields.filter fun field => field.1 == key with
  | [] => some default
  | [field] => read field.2
  | _ => none

/-- A configuration is an object. Fields of other names mean nothing. The two fields may also be
listed in order. -/
def ofJson? : Json → Option CalcConfig
  | .object fields => do
    let resultLimit ← optional? fields "resultLimit" limit? 0
    let simplifyContext ← optional? fields "simplifyContext" switch? true
    return { resultLimit, simplifyContext }
  | .array [] => some {}
  | .array [resultLimit] => do return { resultLimit := ← limit? resultLimit }
  | .array [resultLimit, simplifyContext] => do
    return { resultLimit := ← limit? resultLimit, simplifyContext := ← switch? simplifyContext }
  | _ => none

def fieldNames : List String := ["resultLimit", "simplifyContext"]

/-- The fields of the configuration. All other fields are passed over, and need not be readable. -/
def readFields (fields : List (Option String × Json.Raw)) : Option (List (String × Json)) :=
  fields.filterMapM fun (key?, raw) => do
    let key ← key?
    if fieldNames.contains key then return some (key, ← raw.toJson? Json.depthLimit)
    else return none

def ofRaw? : Json.Raw → Option CalcConfig
  | .object fields => (readFields fields).bind fun fields => ofJson? (.object fields)
  | raw => (raw.toJson? Json.depthLimit).bind ofJson?

def ofText? (s : String) : Option CalcConfig := (Json.Raw.ofText? s).bind ofRaw?

end CalcConfig

end CubeCalc
