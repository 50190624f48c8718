/-!
# Result styles

The style of a calc says in what form it hands out a set, or that it hands out a single value.
-/

namespace CubeCalc

inductive ResultStyle where
  | any
  /-- A list that the caller owns and may change. -/
  | mutableList
  /-- A list that may be shared and must not be changed. -/
  | list
  | iterable
  | value
  deriving DecidableEq, Repr

namespace ResultStyle

def isList : ResultStyle → Bool
  | .mutableList | .list => true
  | _ => false

def name : ResultStyle → String
  | .any => "ANY"
  | .mutableList => "MUTABLE_LIST"
  | .list => "LIST"
  | .iterable => "ITERABLE"
  | .value => "VALUE"

def allStyles : List ResultStyle := [.any, .mutableList, .list, .iterable, .value]

def ofName? (name : String) : Option ResultStyle := allStyles.find? fun style => style.name == name

def requestName : ResultStyle → String
  | .any => "Any"
  | .mutableList => "MutableList"
  | .list => "List"
  | .iterable => "Iterable"
  | .value => "Value"

end ResultStyle

end CubeCalc
