import CubeCalc.Exp
import CubeCalc.Json.Parser
import CubeCalc.Json.Printer
/-!
# Expressions in JSON

An expression is an object with its kind and the fields of that kind. Every field is written, and
only those with a natural default may be left out when it is read.
-/

namespace CubeCalc

/-! ### Names of operators and functions -/

def ArithmeticOp.jsonName : ArithmeticOp → String
  | .add => "Add"
  | .subtract => "Subtract"
  | .multiply => "Multiply"
  | .divide => "Divide"

def ArithmeticOp.allOps : List ArithmeticOp := [.add, .subtract, .multiply, .divide]

def ComparisonOp.jsonName : ComparisonOp → String
  | .equal => "Equal"
  | .notEqual => "NotEqual"
  | .less => "Less"
  | .lessOrEqual => "LessOrEqual"
  | .greater => "Greater"
  | .greaterOrEqual => "GreaterOrEqual"

def ComparisonOp.allOps : List ComparisonOp :=
  [.equal, .notEqual, .less, .lessOrEqual, .greater, .greaterOrEqual]

/-- In JSON the average is not abbreviated. -/
def AggregateFunction.jsonName : AggregateFunction → String
  | .average => "Average"
  | f => f.name

def named? {α : Type} (items : List α) (nameOf : α → String) (name : String) : Option α :=
  items.find? fun item => nameOf item == name

def ArithmeticOp.ofName? : String → Option ArithmeticOp := named? allOps jsonName

def ComparisonOp.ofName? : String → Option ComparisonOp := named? allOps jsonName

def AggregateFunction.ofName? : String → Option AggregateFunction := named? allFunctions jsonName

/-! ### Literals -/

namespace Literal

def toJson : Literal → Json
  | .null => .null
  | .boolean b => .bool b
  | .number x => .ofFloat x
  | .string s => .string s

/-- A whole number is read as the nearest double. -/
def ofJson? : Json → Option Literal
  | .null => some .null
  | .bool b => some (.boolean b)
  | .int n => some (.number (Float.ofInt n))
  | .float x => some (.number x)
  | .string s => some (.string s)
  | _ => none

end Literal

namespace Exp

/-! ### Writing -/

def node (kind : String) (fields : List (String × Json)) : Json :=
  .object (("kind", .string kind) :: fields)

mutual

def toJson : Exp → Json
  | .literal value => node "literal" [("value", value.toJson)]
  | .member n => node "member" [("name", .string n)]
  | .currentMember h => node "currentMember" [("hierarchy", .string h)]
  | .currentValue => node "currentValue" []
  | .members h => node "members" [("hierarchy", .string h)]
  | .levelMembers h depth => node "levelMembers" [("hierarchy", .string h), ("depth", .int depth)]
  | .children m => node "children" [("member", m.toJson)]
  | .parent m => node "parent" [("member", m.toJson)]
  | .name m => node "name" [("member", m.toJson)]
  | .level m => node "level" [("member", m.toJson)]
  | .hierarchy m => node "hierarchy" [("member", m.toJson)]
  | .tuple ms => node "tuple" [("members", .array (toJsons ms))]
  | .set elements => node "set" [("elements", .array (toJsons elements))]
  | .crossJoin left right => node "crossJoin" [("left", left.toJson), ("right", right.toJson)]
  | .filter s condition => node "filter" [("set", s.toJson), ("condition", condition.toJson)]
  | .order s key descending =>
    node "order" [("set", s.toJson), ("key", key.toJson), ("descending", .bool descending)]
  | .aggregate function s value? =>
    node "aggregate" [("function", .string function.jsonName), ("set", s.toJson),
      ("value", optionToJson value?)]
  | .count s includeEmpty =>
    node "count" [("set", s.toJson), ("includeEmpty", .bool includeEmpty)]
  | .arithmetic op left right =>
    node "arithmetic" [("op", .string op.jsonName), ("left", left.toJson), ("right", right.toJson)]
  | .comparison op left right =>
    node "comparison" [("op", .string op.jsonName), ("left", left.toJson), ("right", right.toJson)]
  | .and left right => node "and" [("left", left.toJson), ("right", right.toJson)]
  | .or left right => node "or" [("left", left.toJson), ("right", right.toJson)]
  | .not operand => node "not" [("operand", operand.toJson)]
  | .iif condition thenExp elseExp =>
    node "iif" [("condition", condition.toJson), ("then", thenExp.toJson),
      ("otherwise", elseExp.toJson)]

def toJsons : List Exp → List Json
  | [] => []
  | exp :: rest => exp.toJson :: toJsons rest

def optionToJson : Option Exp → Json
  | none => .null
  | some exp => exp.toJson

end

/-! ### Reading -/

/-- What a field holds, as it stands and as the expressions that it may be read as. -/
structure Part where
  json : Json
  exp? : Option Exp
  exps? : Option (List Exp)

/-- The kinds with their fields, both in the order in which they are numbered. -/
def kinds : List (String × List String) := [
  ("literal", ["value"]),
  ("member", ["name"]),
  ("currentMember", ["hierarchy"]),
  ("currentValue", []),
  ("members", ["hierarchy"]),
  ("levelMembers", ["hierarchy", "depth"]),
  ("children", ["member"]),
  ("parent", ["member"]),
  ("name", ["member"]),
  ("level", ["member"]),
  ("hierarchy", ["member"]),
  ("tuple", ["members"]),
  ("set", ["elements"]),
  ("crossJoin", ["left", "right"]),
  ("filter", ["set", "condition"]),
  ("order", ["set", "key", "descending"]),
  ("aggregate", ["function", "set", "value"]),
  ("count", ["set", "includeEmpty"]),
  ("arithmetic", ["op", "left", "right"]),
  ("comparison", ["op", "left", "right"]),
  ("and", ["left", "right"]),
  ("or", ["left", "right"]),
  ("not", ["operand"]),
  ("iif", ["condition", "then", "otherwise"])]

/-- A kind is given by its name or, inside another expression, by its number. -/
def kind? (isNested : Bool) : Json → Option String
  | .string kind => some kind
  | .int n => if isNested && 0 ≤ n then kinds[n.toNat]?.map (·.1) else none
  | _ => none

abbrev Parts := List (String × Part)

namespace Parts

/-- A field that is there once. -/
def only? (parts : Parts) (key : String) : Option Part :=
  match parts.filter fun part => part.1 == key with
  | [part] => some part.2
  | _ => none

def isMissing (parts : Parts) (key : String) : Bool := !parts.any fun part => part.1 == key

def exp? (parts : Parts) (key : String) : Option Exp := (parts.only? key).bind Part.exp?

def exps? (parts : Parts) (key : String) : Option (List Exp) := (parts.only? key).bind Part.exps?

def text? (parts : Parts) (key : String) : Option String :=
  match parts.only? key with
  | some ⟨.string s, _, _⟩ => some s
  | _ => none

/-- Depths are words of 32 bits. -/
def depth? (parts : Parts) (key : String) : Option Nat :=
  match parts.only? key with
  | some ⟨.int n, _, _⟩ => if 0 ≤ n ∧ n < UInt32.size then some n.toNat else none
  | _ => none

/-- A switch that is left out is off. -/
def switch? (parts : Parts) (key : String) : Option Bool :=
  if parts.isMissing key then some false
  else
    match parts.only? key with
    | some ⟨.bool b, _, _⟩ => some b
    | _ => none

/-- An expression that may be left out or be null. -/
def optional? (parts : Parts) (key : String) : Option (Option Exp) :=
  if parts.isMissing key then some none
  else
    match parts.only? key with
    | some ⟨.null, _, _⟩ => some none
    | some part => part.exp?.map some
    | none => none

/-- A name stands for itself or for the one key of an object that holds nothing. -/
def choice? {α : Type} (parts : Parts) (key : String) (ofName? : String → Option α) : Option α :=
  match parts.only? key with
  | some ⟨.string n, _, _⟩ => ofName? n
  | some ⟨.object [(n, .null)], _, _⟩ => ofName? n
  | some ⟨.object [(n, .object [])], _, _⟩ => ofName? n
  | _ => none

end Parts

/-- The expression of a kind with some fields. Fields that the kind does not have mean nothing. -/
def ofParts? (kind : String) (parts : Parts) : Option Exp :=
  match kind with
  | "literal" => do return .literal (← Literal.ofJson? (← parts.only? "value").json)
  | "member" => do return .member (← parts.text? "name")
  | "currentMember" => do return .currentMember (← parts.text? "hierarchy")
  | "currentValue" => some .currentValue
  | "members" => do return .members (← parts.text? "hierarchy")
  | "levelMembers" => do
    return .levelMembers (← parts.text? "hierarchy") (← parts.depth? "depth")
  | "children" => do return .children (← parts.exp? "member")
  | "parent" => do return .parent (← parts.exp? "member")
  | "name" => do return .name (← parts.exp? "member")
  | "level" => do return .level (← parts.exp? "member")
  | "hierarchy" => do return .hierarchy (← parts.exp? "member")
  | "tuple" => do return .tuple (← parts.exps? "members")
  | "set" => do return .set (← parts.exps? "elements")
  | "crossJoin" => do return .crossJoin (← parts.exp? "left") (← parts.exp? "right")
  | "filter" => do return .filter (← parts.exp? "set") (← parts.exp? "condition")
  | "order" => do
    return .order (← parts.exp? "set") (← parts.exp? "key") (← parts.switch? "descending")
  | "aggregate" => do
    return .aggregate (← parts.choice? "function" AggregateFunction.ofName?)
      (← parts.exp? "set") (← parts.optional? "value")
  | "count" => do return .count (← parts.exp? "set") (← parts.switch? "includeEmpty")
  | "arithmetic" => do
    return .arithmetic (← parts.choice? "op" ArithmeticOp.ofName?) (← parts.exp? "left")
      (← parts.exp? "right")
  | "comparison" => do
    return .comparison (← parts.choice? "op" ComparisonOp.ofName?) (← parts.exp? "left")
      (← parts.exp? "right")
  | "and" => do return .and (← parts.exp? "left") (← parts.exp? "right")
  | "or" => do return .or (← parts.exp? "left") (← parts.exp? "right")
  | "not" => do return .not (← parts.exp? "operand")
  | "iif" => do
    return .iif (← parts.exp? "condition") (← parts.exp? "then") (← parts.exp? "otherwise")
  | _ => none

/-- The fields of a kind listed in order, as many as there are. -/
def ofItems? (kind : String) (items : List Part) : Option Exp := do
  let names ← kinds.lookup kind
  if names.length < items.length then none else ofParts? kind (names.zip items)

mutual

/-- The kind may stand anywhere among the fields. Kind and fields may also be listed in order. -/
def read (isNested : Bool) : Json → Option Exp
  | .object fields => do
    let parts := readFields fields
    ofParts? (← kind? isNested (← Parts.only? parts "kind").json) parts
  | .array (kind :: items) => do ofItems? (← kind? isNested kind) (readItems items)
  | _ => none

def readItems : List Json → List Part
  | [] => []
  | json :: rest => ⟨json, read true json, readList json⟩ :: readItems rest

def readFields : List (String × Json) → Parts
  | [] => []
  | (key, json) :: rest => (key, ⟨json, read true json, readList json⟩) :: readFields rest

def readList : Json → Option (List Exp)
  | .array items => readExps items
  | _ => none

def readExps : List Json → Option (List Exp)
  | [] => some []
  | json :: rest => do return (← read true json) :: (← readExps rest)

end

def ofJson? (json : Json) : Option Exp := read false json

def ofText? (s : String) : Option Exp := (Json.parse? Json.depthLimit s).bind ofJson?

end Exp

end CubeCalc
