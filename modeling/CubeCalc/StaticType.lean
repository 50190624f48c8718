import CubeCalc.Hierarchy
/-!
# Static types

The type of an expression says which hierarchies its value is made of: definitely, possibly, or not
at all.
-/

namespace CubeCalc

/-- Where a type leaves its hierarchy or dimension open, any may occur. -/
inductive StaticType where
  | boolean
  | numeric
  | string
  | scalar
  | null
  | void
  | member (hierarchy? : Option Hierarchy)
  | level (hierarchy? : Option Hierarchy)
  | hierarchy (hierarchy? : Option Hierarchy)
  | dimension (name? : Option String)
  | tuple (columns : List StaticType)
  | set (element : StaticType)
  deriving Repr

namespace StaticType

def isScalar : StaticType → Bool
  | .boolean | .numeric | .string | .scalar | .null => true
  | _ => false

def isMember : StaticType → Bool
  | .member _ => true
  | _ => false

def isTuple : StaticType → Bool
  | .tuple _ => true
  | _ => false

def isSet : StaticType → Bool
  | .set _ => true
  | _ => false

def arity : StaticType → Nat
  | .member _ => 1
  | .tuple columns => columns.length
  | .set element => element.arity
  | _ => 0

def element? : StaticType → Option StaticType
  | .set element => some element
  | _ => none

def columns : StaticType → List StaticType
  | .set (.tuple columns) => columns
  | .set element => [element]
  | _ => []

def memberHierarchy? : StaticType → Option Hierarchy
  | .member hierarchy? => hierarchy?
  | _ => none

mutual

/-- Whether a value of the type spans a hierarchy, for certain or as far as the type says. -/
def usesHierarchy (h : Hierarchy) (definitely : Bool) : StaticType → Bool
  | .member hierarchy? | .level hierarchy? | .hierarchy hierarchy? =>
    match hierarchy? with
    | some own => own == h
    | none => !definitely
  | .dimension name? => !definitely && name?.all (· == h.dimension)
  | .tuple columns => anyUsesHierarchy h definitely columns
  | .set element => element.usesHierarchy h definitely
  | _ => false

def anyUsesHierarchy (h : Hierarchy) (definitely : Bool) : List StaticType → Bool
  | [] => false
  | column :: rest => column.usesHierarchy h definitely || anyUsesHierarchy h definitely rest

end

mutual

/-- Types are equal when they are built alike over equal hierarchies and names. -/
def equals : StaticType → StaticType → Bool
  | .boolean, .boolean | .numeric, .numeric | .string, .string => true
  | .scalar, .scalar | .null, .null | .void, .void => true
  | .member a, .member b | .level a, .level b | .hierarchy a, .hierarchy b => a == b
  | .dimension a, .dimension b => a == b
  | .tuple a, .tuple b => allEqual a b
  | .set a, .set b => a.equals b
  | _, _ => false

def allEqual : List StaticType → List StaticType → Bool
  | [], [] => true
  | a :: as, b :: bs => a.equals b && allEqual as bs
  | _, _ => false

end

instance : BEq StaticType := ⟨equals⟩

/-- The hierarchy that a type names, as it stands behind the type's word. -/
def hierarchyLabel : Option Hierarchy → String
  | some h => "<hierarchy=" ++ h.uniqueName ++ ">"
  | none => ""

mutual

def display : StaticType → String
  | .boolean => "BOOLEAN"
  | .numeric => "NUMERIC"
  | .string => "STRING"
  | .scalar => "SCALAR"
  | .null => "NULL"
  | .void => "VOID"
  | .member hierarchy? => "MemberType" ++ hierarchyLabel hierarchy?
  | .level hierarchy? => "LevelType" ++ hierarchyLabel hierarchy?
  | .hierarchy hierarchy? => "HierarchyType" ++ hierarchyLabel hierarchy?
  | .dimension (some name) => "DimensionType<dimension=[" ++ name ++ "]>"
  | .dimension none => "DimensionType"
  | .tuple columns => "TupleType<" ++ displayColumns columns ++ ">"
  | .set element => "SetType<" ++ element.display ++ ">"

def displayColumns : List StaticType → String
  | [] => ""
  | [column] => column.display
  | column :: rest => column.display ++ ", " ++ displayColumns rest

end

end StaticType

end CubeCalc
