import CubeCalc.Json.Printer
/-!
# Arguments of calcs

Keys with JSON values, in the order in which the keys were first set.
-/

namespace CubeCalc

structure Arguments where
  entries : List (String × Json)
  deriving Repr, Inhabited

namespace Arguments

def empty : Arguments := ⟨[]⟩

def size (args : Arguments) : Nat := args.entries.length

def isEmpty (args : Arguments) : Bool := args.entries.isEmpty

def keys (args : Arguments) : List String := args.entries.map (·.1)

def get? (args : Arguments) (key : String) : Option Json := Json.field? args.entries key

def setEntry (key : String) (value : Json) : List (String × Json) → List (String × Json)
  | [] => [(key, value)]
  | (k, v) :: rest => if k = key then (k, value) :: rest else (k, v) :: setEntry key value rest

/-- A key that is set again keeps its place. -/
def set (args : Arguments) (key : String) (value : Json) : Arguments :=
  ⟨setEntry key value args.entries⟩

def setAll (args : Arguments) (entries : List (String × Json)) : Arguments :=
  entries.foldl (fun args entry => args.set entry.1 entry.2) args

def toJson (args : Arguments) : Json := .object args.entries

/-- A text stands for itself, and any other value for its JSON. -/
def valueText : Json → String
  | .string s => s
  | value => value.text

def display (args : Arguments) : String :=
  ", ".intercalate (args.entries.map fun entry => entry.1 ++ "=" ++ valueText entry.2)

end Arguments

end CubeCalc
