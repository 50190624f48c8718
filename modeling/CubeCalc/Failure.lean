import CubeCalc.ResultStyle
import CubeCalc.StaticType
/-!
# Failures

An operation fails with an error, which its caller is expected to handle, or with a violation, which
means that the caller has broken the operation's contract.
-/

namespace CubeCalc

inductive ValueKind where
  | null
  | boolean
  | numeric
  | string
  | member
  | tuple
  | level
  | hierarchy
  | list
  | iterable
  deriving DecidableEq, Repr

def ValueKind.name : ValueKind → String
  | .null => "NULL"
  | .boolean => "BOOLEAN"
  | .numeric => "NUMERIC"
  | .string => "STRING"
  | .member => "MEMBER"
  | .tuple => "TUPLE"
  | .level => "LEVEL"
  | .hierarchy => "HIERARCHY"
  | .list => "LIST"
  | .iterable => "ITERABLE"

/-- What an expression has to be at a place where it is not. -/
inductive Expected where
  | scalar
  | numeric
  | boolean
  | member
  | memberOrTuple
  | set
  deriving DecidableEq, Repr

def Expected.name : Expected → String
  | .scalar => "SCALAR"
  | .numeric => "NUMERIC"
  | .boolean => "BOOLEAN"
  | .member => "MEMBER"
  | .memberOrTuple => "MEMBER or TUPLE"
  | .set => "SET"

inductive CalcError where
  | limitExceeded (attempted limit : Nat)
  | immutableList
  | arityMismatch (expected actual : Nat)
  | indexOutOfBounds (index length : Nat)
  | unsupported (operation : String)
  | resultStyle (requested : List ResultStyle) (actual : ResultStyle)
  | typeMismatch (expected : Expected) (actual : StaticType)
  | kindMismatch (expected actual : ValueKind)
  | notFound (name : String)
  | evaluation (reason : String)
  deriving Repr

namespace CalcError

def message : CalcError → String
  | .limitExceeded attempted limit =>
    "size of tuple list (" ++ toString attempted ++ ") exceeded result limit (" ++
      toString limit ++ ")"
  | .immutableList => "tuple list is immutable"
  | .arityMismatch expected actual =>
    "tuple of arity " ++ toString actual ++ " does not fit a list of arity " ++ toString expected
  | .indexOutOfBounds index length =>
    "index " ++ toString index ++ " out of bounds for length " ++ toString length
  | .unsupported operation => "unsupported operation: " ++ operation
  | .resultStyle requested actual =>
    "cannot satisfy result styles [" ++ ", ".intercalate (requested.map ResultStyle.requestName) ++
      "] with a calc of style " ++ actual.name
  | .typeMismatch expected actual =>
    "expected type " ++ expected.name ++ ", got " ++ actual.display
  | .kindMismatch expected actual => "expected type " ++ expected.name ++ ", got " ++ actual.name
  | .notFound name => "'" ++ name ++ "' not found in cube"
  | .evaluation reason => "evaluation error: " ++ reason

/-- The key under which a front end finds a message of its own for an error. -/
def code? : CalcError → Option String
  | .limitExceeded _ _ => some "LimitExceededDuringCrossjoin"
  | _ => none

end CalcError

/-- The ways in which a caller can break a contract. -/
inductive Violation where
  | columnOutOfRange (column arity : Nat)
  | indexOutOfRange (index length : Nat)
  | outOfRange
  /-- A count does not fit into a word. -/
  | countOverflow
  | capacityOverflow
  | packedWithoutColumns
  | notPositioned
  /-- A sequence has come to a tuple that is not as long as it declares. -/
  | tupleLength
  | hierarchyNotInCube (hierarchy cube : String)
  | memberNotInCube (member cube : String)
  | coordinateWidth
  | hierarchyWithoutMembers
  /-- A calc was declared with a type and a style that its variant cannot have. -/
  | misfit (variant : String) (type : StaticType) (style : ResultStyle)
  | notMaterializable (style : ResultStyle)
  deriving Repr

/-- What is out of reach or of the wrong length has no text. -/
def Violation.message? : Violation → Option String
  | .columnOutOfRange column arity =>
    some ("column " ++ toString column ++ " out of range for arity " ++ toString arity)
  | .indexOutOfRange index length =>
    some ("index " ++ toString index ++ " out of bounds for length " ++ toString length)
  | .outOfRange | .countOverflow | .capacityOverflow | .tupleLength => none
  | .packedWithoutColumns => some "packed tuple lists need a positive arity"
  | .notPositioned => some "cursor is not positioned on a tuple"
  | .hierarchyNotInCube hierarchy cube =>
    some ("hierarchy " ++ hierarchy ++ " is not in cube " ++ cube)
  | .memberNotInCube member cube => some ("member " ++ member ++ " is not in cube " ++ cube)
  | .coordinateWidth => some "coordinate width mismatch"
  | .hierarchyWithoutMembers => some "a hierarchy needs at least one member"
  | .misfit variant type style =>
    some (variant ++ " cannot have type " ++ type.display ++ " and result style " ++ style.name)
  | .notMaterializable style => some ("cannot materialize into style " ++ style.name)

inductive Failure where
  | error (cause : CalcError)
  | violation (cause : Violation)
  deriving Repr

abbrev Outcome := Except Failure

def fail {α : Type} (cause : CalcError) : Outcome α := .error (.error cause)

def violate {α : Type} (cause : Violation) : Outcome α := .error (.violation cause)

end CubeCalc
