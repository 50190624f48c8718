import CubeCalc.Calc
import CubeCalc.Config
import CubeCalc.Exp
import CubeCalc.ResultStyle.Negotiation
/-!
# Compiling expressions

Names are resolved against a cube, arguments are checked against the types that their place demands,
and results are adapted to the styles that their callers can use.
-/

namespace CubeCalc

namespace Literal

def toValue : Literal → Value
  | .null => .null
  | .boolean b => .boolean b
  | .number x => .number (.ofFloat x)
  | .string s => .string s

end Literal

/-! ### Resolving names -/

def Cube.resolveHierarchy (cube : Cube) (name : String) : Outcome Hierarchy :=
  match cube.hierarchy? name <|> cube.hierarchies.find? fun h => h.uniqueName == name with
  | some h => .ok h
  | none => fail (.notFound name)

def Cube.resolveMember (cube : Cube) (name : String) : Outcome (Hierarchy × Member) :=
  match cube.lookup? name with
  | some found => .ok found
  | none => fail (.notFound name)

namespace Calc

/-! ### Making calcs -/

/-- A set literal has elements, and they are of one arity. Scalars count as tuples of one. -/
def makeSetLiteral (elements : List Calc) (limit : RowLimit) : Outcome Calc :=
  match elements with
  | [] => fail (.unsupported "empty set literal")
  | first :: _ =>
    let arity := max first.type.arity 1
    match elements.find? fun c => max c.type.arity 1 ≠ arity with
    | some other => fail (.arityMismatch arity (max other.type.arity 1))
    | none => .ok (.setLiteral elements limit)

def makeParent (member : Calc) : Outcome Calc := (memberParent member).checked

def makeFilter (set condition : Calc) (limit : RowLimit) (simplify : Bool) : Outcome Calc :=
  (filter set condition limit simplify).checked

def makeOrder (set key : Calc) (descending simplify : Bool) : Outcome Calc :=
  (order set key descending simplify).checked

/-- Without a value the cell is aggregated. -/
def makeAggregate (set : Calc) (value? : Option Calc) (function : AggregateFunction)
    (simplify : Bool) : Calc :=
  aggregate set (value?.getD currentValue) function simplify

/-- To leave out empty tuples takes reading the cells. -/
def makeCount (set : Calc) (includeEmpty simplify : Bool) : Calc :=
  if includeEmpty then walkCount set simplify else makeAggregate set none .count simplify

def makePackedList (c : Calc) (style : ResultStyle) (limit : RowLimit) : Outcome Calc :=
  if style.isList then (packedList c style limit).checked else violate (.notMaterializable style)

def makeCopiedList (c : Calc) : Outcome Calc := (copiedList c).checked

/-! ### Adapting styles -/

def adapted (c : Calc) (style : ResultStyle) (limit : RowLimit) : Adaptation → Outcome Calc
  | .asIs => .ok c
  | .materialize => c.makePackedList style limit
  | .copy => c.makeCopiedList

/-- The calc in the first of some styles that it can be brought to. -/
def adapt (c : Calc) (styles : List ResultStyle) (limit : RowLimit) : Outcome Calc := do
  let (style, adaptation) ← c.style.negotiate styles
  c.adapted style limit adaptation

/-! ### Demands on types -/

def demand (c : Calc) (expected : Expected) (ok : StaticType → Bool) : Outcome Calc :=
  if ok c.type then .ok c else fail (.typeMismatch expected c.type)

/-- Members and tuples stand for the cells that they address. -/
def asScalar (c : Calc) : Outcome Calc :=
  match c.type with
  | .member _ => .ok (memberValue [c])
  | .tuple _ => .ok (tupleValue c)
  | _ => c.demand .scalar StaticType.isScalar

def isNumeric : StaticType → Bool
  | .numeric | .scalar | .null => true
  | _ => false

def isBoolean : StaticType → Bool
  | .boolean | .numeric | .scalar | .null => true
  | _ => false

def asNumeric (c : Calc) : Outcome Calc := do (← c.asScalar).demand .numeric isNumeric

def asBoolean (c : Calc) : Outcome Calc := do (← c.asScalar).demand .boolean isBoolean

def asMember (c : Calc) : Outcome Calc := c.demand .member StaticType.isMember

def asElement (c : Calc) : Outcome Calc :=
  c.demand .memberOrTuple fun type => type.isMember || type.isTuple

def asSet (c : Calc) : Outcome Calc := c.demand .set StaticType.isSet

def asList (c : Calc) (isMutable : Bool) (limit : RowLimit) : Outcome Calc := do
  (← c.asSet).adapt (if isMutable then [.mutableList] else [.list, .mutableList]) limit

/-- A set to be walked once. Lists are fine as they are. -/
def asIterable (c : Calc) (limit : RowLimit) : Outcome Calc := do
  (← c.asSet).adapt [.iterable, .any] limit

end Calc

/-! ### Compilation -/

structure Compiler where
  cube : Cube
  config : CalcConfig

namespace Compiler

def limit (compiler : Compiler) : RowLimit := compiler.config.limit

mutual

def compile (compiler : Compiler) : Exp → Outcome Calc
  | .literal value => .ok (.constant value.toValue)
  | .member name => do
    let (h, m) ← compiler.cube.resolveMember name
    return .memberLiteral h m
  | .currentMember name => do return .currentMember (← compiler.cube.resolveHierarchy name)
  | .currentValue => .ok .currentValue
  | .members name => do
    return .hierarchyMembers (← compiler.cube.resolveHierarchy name) compiler.limit
  | .levelMembers name depth => do
    let h ← compiler.cube.resolveHierarchy name
    if (h.level? depth).isNone then fail (.notFound (Calc.levelLabel h depth))
    else return .levelMembers h depth compiler.limit
  | .children member => do
    return .memberChildren (← (← compile compiler member).asMember) compiler.limit
  | .parent member => do (← (← compile compiler member).asMember).makeParent
  | .name member => do return .memberName (← (← compile compiler member).asMember)
  | .level member => do return .memberLevel (← (← compile compiler member).asMember)
  | .hierarchy member => do return .memberHierarchy (← (← compile compiler member).asMember)
  | .tuple members => do return .tupleLiteral (← compileAll compiler Calc.asMember members)
  | .set elements => do
    Calc.makeSetLiteral (← compileAll compiler Calc.asElement elements) compiler.limit
  | .crossJoin left right => do
    let left ← (← compile compiler left).asList false compiler.limit
    let right ← (← compile compiler right).asList false compiler.limit
    return .crossJoin left right compiler.limit
  | .filter set condition => do
    let set ← (← compile compiler set).asIterable compiler.limit
    let condition ← (← compile compiler condition).asBoolean
    Calc.makeFilter set condition compiler.limit compiler.config.simplifyContext
  | .order set key descending => do
    let set ← (← compile compiler set).asList true compiler.limit
    let key ← (← compile compiler key).asNumeric
    Calc.makeOrder set key descending compiler.config.simplifyContext
  | .aggregate function set value? => do
    let value? ← compileScalar? compiler value?
    let set ← (← compile compiler set).asIterable compiler.limit
    return Calc.makeAggregate set value? function compiler.config.simplifyContext
  | .count set includeEmpty => do
    let set ← (← compile compiler set).asSet
    if includeEmpty && set.style.isList then return .listCount set
    else return Calc.makeCount set includeEmpty compiler.config.simplifyContext
  | .arithmetic op left right => do
    let left ← (← compile compiler left).asNumeric
    return .arithmetic op left (← (← compile compiler right).asNumeric)
  | .comparison op left right => do
    let left ← (← compile compiler left).asNumeric
    return .comparison op left (← (← compile compiler right).asNumeric)
  | .and left right => do
    let left ← (← compile compiler left).asBoolean
    return .and left (← (← compile compiler right).asBoolean)
  | .or left right => do
    let left ← (← compile compiler left).asBoolean
    return .or left (← (← compile compiler right).asBoolean)
  | .not operand => do return .not (← (← compile compiler operand).asBoolean)
  | .iif condition thenExp elseExp => do
    let condition ← (← compile compiler condition).asBoolean
    let thenCalc ← (← compile compiler thenExp).asScalar
    return .iif condition thenCalc (← (← compile compiler elseExp).asScalar)

/-- The calcs of some expressions, each held to a demand before the next is looked at. -/
def compileAll (compiler : Compiler) (demand : Calc → Outcome Calc) :
    List Exp → Outcome (List Calc)
  | [] => .ok []
  | exp :: rest => do
    let c ← demand (← compile compiler exp)
    return c :: (← compileAll compiler demand rest)

def compileScalar? (compiler : Compiler) : Option Exp → Outcome (Option Calc)
  | none => .ok none
  | some exp => do return some (← (← compile compiler exp).asScalar)

end

/-! ### Requests -/

variable (compiler : Compiler) (exp : Exp)

def compileAs (styles : List ResultStyle) : Outcome Calc := do
  (← compiler.compile exp).adapt styles compiler.limit

def compileScalar : Outcome Calc := do (← compiler.compile exp).asScalar

def compileNumeric : Outcome Calc := do (← compiler.compile exp).asNumeric

def compileBoolean : Outcome Calc := do (← compiler.compile exp).asBoolean

def compileMember : Outcome Calc := do (← compiler.compile exp).asMember

def compileSet : Outcome Calc := do (← compiler.compile exp).asSet

def compileList (isMutable : Bool) : Outcome Calc := do
  (← compiler.compile exp).asList isMutable compiler.limit

def compileIterable : Outcome Calc := do (← compiler.compile exp).asIterable compiler.limit

def compileVoid : Outcome Calc := do return .effect (← compiler.compile exp)

end Compiler

end CubeCalc
