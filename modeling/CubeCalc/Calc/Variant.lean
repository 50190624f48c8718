import CubeCalc.ResultStyle
import CubeCalc.StaticType
import CubeCalc.Value
/-!
# Variants of calcs

The variant of a calc is the narrow kind of result that it computes. It limits the types and styles
that the calc may be declared with.
-/

namespace CubeCalc

inductive CalcVariant where
  | boolean
  | numeric
  | string
  | member
  | tuple
  | level
  | hierarchy
  | list
  | iter
  | void
  | generic
  deriving DecidableEq, Repr

namespace CalcVariant

def name : CalcVariant → String
  | .boolean => "BooleanCalc"
  | .numeric => "NumericCalc"
  | .string => "StringCalc"
  | .member => "MemberCalc"
  | .tuple => "TupleCalc"
  | .level => "LevelCalc"
  | .hierarchy => "HierarchyCalc"
  | .list => "ListCalc"
  | .iter => "IterCalc"
  | .void => "VoidCalc"
  | .generic => "GenericCalc"

def acceptsType (variant : CalcVariant) (type : StaticType) : Bool :=
  match variant, type with
  | .boolean, .boolean | .numeric, .numeric | .string, .string | .void, .void => true
  | .member, .member _ | .tuple, .tuple _ | .level, .level _ | .hierarchy, .hierarchy _ => true
  | .list, .set _ | .iter, .set _ | .generic, _ => true
  | _, _ => false

/-- Lists have one of the list styles, sequences are to be walked, and all else is a value. -/
def acceptsStyle (variant : CalcVariant) (style : ResultStyle) : Bool :=
  match variant with
  | .list => style.isList
  | .iter => style = .iterable
  | .generic => true
  | _ => style = .value || style = .any

def accepts (variant : CalcVariant) (type : StaticType) (style : ResultStyle) : Bool :=
  variant.acceptsType type && variant.acceptsStyle style

def narrow (variant : CalcVariant) (v : Value) : Outcome Value :=
  match variant with
  | .boolean => Value.boolean <$> v.toBoolean
  | .numeric => (fun x? => x?.elim .null .number) <$> v.toNumber
  | .string => (fun s? => s?.elim .null .string) <$> v.toText
  | .member => (fun m? => m?.elim .null .member) <$> v.toMember
  | .tuple => (fun t? => t?.elim .null .tuple) <$> v.toTuple
  | .level => (fun l? => l?.elim .null .level) <$> v.toLevel
  | .hierarchy => (fun h? => h?.elim .null .hierarchy) <$> v.toHierarchy
  | .list => Value.list <$> v.toList
  | .iter => Value.iterable <$> v.toSource
  | .void => .ok .null
  | .generic => .ok v

end CalcVariant

end CubeCalc
