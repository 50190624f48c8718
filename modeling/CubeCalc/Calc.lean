import CubeCalc.Calc.Arguments
import CubeCalc.Calc.Rule
import CubeCalc.Calc.Variant
import CubeCalc.Operator
import CubeCalc.RowLimit
import CubeCalc.Statistic.Accumulator
/-!
# Calcs

A calc is an expression that has been compiled against a cube: hierarchies and members are resolved,
and row limits are in place. Its identity, type, style and dependencies follow from its form.
-/

namespace CubeCalc

/-- A calc that an embedding program supplies: what it declares about itself, and its answer. -/
structure CustomCalc where
  variant : CalcVariant
  name : String
  className : String
  type : StaticType
  style : ResultStyle
  rule : DependencyRule
  args : List (String × Json)
  answer : Value
  failure? : Option String
  deriving Repr

inductive Calc where
  | constant (value : Value)
  | currentValue
  | currentMember (h : Hierarchy)
  | memberLiteral (h : Hierarchy) (m : Member)
  /-- The cell at the context overridden by members. -/
  | memberValue (members : List Calc)
  | tupleValue (tuple : Calc)
  | tupleLiteral (members : List Calc)
  | memberName (member : Calc)
  | memberParent (member : Calc)
  | memberLevel (member : Calc)
  | memberHierarchy (member : Calc)
  | hierarchyMembers (h : Hierarchy) (limit : RowLimit)
  | levelMembers (h : Hierarchy) (depth : Nat) (limit : RowLimit)
  | memberChildren (member : Calc) (limit : RowLimit)
  | setLiteral (elements : List Calc) (limit : RowLimit)
  | crossJoin (left right : Calc) (limit : RowLimit)
  | filter (set condition : Calc) (limit : RowLimit) (simplify : Bool)
  | order (set key : Calc) (descending simplify : Bool)
  | aggregate (set value : Calc) (function : AggregateFunction) (simplify : Bool)
  /-- The number of tuples of a set, found by walking it. -/
  | walkCount (set : Calc) (simplify : Bool)
  | listCount (set : Calc)
  | arithmetic (op : ArithmeticOp) (left right : Calc)
  | comparison (op : ComparisonOp) (left right : Calc)
  | and (left right : Calc)
  | or (left right : Calc)
  | not (operand : Calc)
  | iif (condition thenCalc elseCalc : Calc)
  | packedList (c : Calc) (style : ResultStyle) (limit : RowLimit)
  | copiedList (c : Calc)
  | effect (c : Calc)
  | custom (own : CustomCalc) (children : List Calc)
  deriving Repr

namespace Calc

def children : Calc → List Calc
  | .constant _ | .currentValue | .currentMember _ | .memberLiteral _ _ => []
  | .hierarchyMembers _ _ | .levelMembers _ _ _ => []
  | .memberValue members | .tupleLiteral members => members
  | .setLiteral elements _ => elements
  | .tupleValue c | .memberName c | .memberParent c | .memberLevel c => [c]
  | .memberHierarchy c | .memberChildren c _ | .walkCount c _ | .listCount c => [c]
  | .not c | .packedList c _ _ | .copiedList c | .effect c => [c]
  | .crossJoin left right _ | .arithmetic _ left right | .comparison _ left right => [left, right]
  | .and left right | .or left right => [left, right]
  | .filter set condition _ _ => [set, condition]
  | .order set key _ _ => [set, key]
  | .aggregate set value _ _ => [set, value]
  | .iif condition thenCalc elseCalc => [condition, thenCalc, elseCalc]
  | .custom _ children => children

mutual

/-- Combines a calc with what its children have been combined to, from the leaves up. -/
def foldTree {β : Type} (f : Calc → List β → β) : Calc → β
  | .constant value => f (.constant value) []
  | .currentValue => f .currentValue []
  | .currentMember h => f (.currentMember h) []
  | .memberLiteral h m => f (.memberLiteral h m) []
  | .memberValue members => f (.memberValue members) (foldTrees f members)
  | .tupleValue tuple => f (.tupleValue tuple) [foldTree f tuple]
  | .tupleLiteral members => f (.tupleLiteral members) (foldTrees f members)
  | .memberName member => f (.memberName member) [foldTree f member]
  | .memberParent member => f (.memberParent member) [foldTree f member]
  | .memberLevel member => f (.memberLevel member) [foldTree f member]
  | .memberHierarchy member => f (.memberHierarchy member) [foldTree f member]
  | .hierarchyMembers h limit => f (.hierarchyMembers h limit) []
  | .levelMembers h depth limit => f (.levelMembers h depth limit) []
  | .memberChildren member limit => f (.memberChildren member limit) [foldTree f member]
  | .setLiteral elements limit => f (.setLiteral elements limit) (foldTrees f elements)
  | .crossJoin left right limit =>
    f (.crossJoin left right limit) [foldTree f left, foldTree f right]
  | .filter set condition limit simplify =>
    f (.filter set condition limit simplify) [foldTree f set, foldTree f condition]
  | .order set key descending simplify =>
    f (.order set key descending simplify) [foldTree f set, foldTree f key]
  | .aggregate set value function simplify =>
    f (.aggregate set value function simplify) [foldTree f set, foldTree f value]
  | .walkCount set simplify => f (.walkCount set simplify) [foldTree f set]
  | .listCount set => f (.listCount set) [foldTree f set]
  | .arithmetic op left right => f (.arithmetic op left right) [foldTree f left, foldTree f right]
  | .comparison op left right => f (.comparison op left right) [foldTree f left, foldTree f right]
  | .and left right => f (.and left right) [foldTree f left, foldTree f right]
  | .or left right => f (.or left right) [foldTree f left, foldTree f right]
  | .not operand => f (.not operand) [foldTree f operand]
  | .iif condition thenCalc elseCalc =>
    f (.iif condition thenCalc elseCalc)
      [foldTree f condition, foldTree f thenCalc, foldTree f elseCalc]
  | .packedList c style limit => f (.packedList c style limit) [foldTree f c]
  | .copiedList c => f (.copiedList c) [foldTree f c]
  | .effect c => f (.effect c) [foldTree f c]
  | .custom own children => f (.custom own children) (foldTrees f children)

def foldTrees {β : Type} (f : Calc → List β → β) : List Calc → List β
  | [] => []
  | c :: rest => foldTree f c :: foldTrees f rest

end

theorem foldTrees_eq_map {β : Type} (f : Calc → List β → β) (calcs : List Calc) :
    foldTrees f calcs = calcs.map (foldTree f) := by
  induction calcs with
  | nil => rfl
  | cons c rest ih => simp [foldTrees, ih]

theorem foldTree_eq {β : Type} (f : Calc → List β → β) (c : Calc) :
    foldTree f c = f c (c.children.map (foldTree f)) := by
  cases c <;> simp [foldTree, children, foldTrees_eq_map]

/-! ### What a calc declares -/

/-- The static type. A set literal takes the type of its first element for all. -/
def type : Calc → StaticType :=
  foldTree fun c types =>
    match c, types with
    | .constant value, _ => value.literalType
    | .currentMember h, _ | .memberLiteral h _, _ => .member (some h)
    | .currentValue, _ | .memberValue _, _ | .tupleValue _, _ => .scalar
    | .tupleLiteral _, types => .tuple types
    | .memberName _, _ => .string
    | .memberParent _, [member] => member
    | .memberLevel _, [member] => .level member.memberHierarchy?
    | .memberHierarchy _, [member] => .hierarchy member.memberHierarchy?
    | .hierarchyMembers h _, _ | .levelMembers h _ _, _ => .set (.member (some h))
    | .memberChildren _ _, [member] => .set member
    | .setLiteral _ _, element :: _ => .set element
    | .crossJoin _ _ _, [left, right] => .set (.tuple (left.columns ++ right.columns))
    | .filter _ _ _ _, set :: _ | .order _ _ _ _, set :: _ => set
    | .aggregate _ _ _ _, _ | .walkCount _ _, _ | .listCount _, _ => .numeric
    | .arithmetic _ _ _, _ => .numeric
    | .comparison _ _ _, _ | .and _ _, _ | .or _ _, _ | .not _, _ => .boolean
    | .iif _ _ _, [_, thenType, _] => thenType
    | .packedList _ _ _, [set] | .copiedList _, [set] => set
    | .custom own _, _ => own.type
    | _, _ => .void

def style : Calc → ResultStyle
  | .hierarchyMembers _ _ | .levelMembers _ _ _ => .list
  | .memberChildren _ _ | .setLiteral _ _ | .filter _ _ _ _ | .order _ _ _ _ => .mutableList
  | .copiedList _ => .mutableList
  | .crossJoin _ _ _ => .iterable
  | .packedList _ style _ => style
  | .custom own _ => own.style
  | _ => .value

def variant : Calc → CalcVariant
  | .constant _ | .currentValue | .memberValue _ | .tupleValue _ | .iif _ _ _ => .generic
  | .currentMember _ | .memberLiteral _ _ | .memberParent _ => .member
  | .tupleLiteral _ => .tuple
  | .memberName _ => .string
  | .memberLevel _ => .level
  | .memberHierarchy _ => .hierarchy
  | .hierarchyMembers _ _ | .levelMembers _ _ _ | .memberChildren _ _ | .setLiteral _ _ => .list
  | .filter _ _ _ _ | .order _ _ _ _ | .packedList _ _ _ | .copiedList _ => .list
  | .crossJoin _ _ _ => .iter
  | .aggregate _ _ _ _ | .walkCount _ _ | .listCount _ | .arithmetic _ _ _ => .numeric
  | .comparison _ _ _ | .and _ _ | .or _ _ | .not _ => .boolean
  | .effect _ => .void
  | .custom own _ => own.variant

def rule : Calc → DependencyRule
  | .constant _ | .memberLiteral _ _ | .hierarchyMembers _ _ | .levelMembers _ _ _ => .never
  | .currentValue => .always
  | .currentMember h => .hierarchy h
  | .memberValue _ | .tupleValue _ => .butDepends
  | .filter _ _ _ _ | .order _ _ _ _ | .aggregate _ _ _ _ => .butFirst
  | .walkCount _ _ | .listCount _ => .butFirst
  | .custom own _ => own.rule
  | _ => .children

/-- The name in plans. An adapter goes by the name of the calc that it adapts. -/
def name : Calc → String
  | .constant _ | .memberLiteral _ _ => "Literal"
  | .currentValue => "CurrentValue"
  | .currentMember _ => "CurrentMember"
  | .memberValue _ => "MemberValue"
  | .tupleValue _ => "TupleValue"
  | .tupleLiteral _ => "()"
  | .memberName _ => "Name"
  | .memberParent _ => "Parent"
  | .memberLevel _ => "Level"
  | .memberHierarchy _ => "Hierarchy"
  | .hierarchyMembers _ _ | .levelMembers _ _ _ => "Members"
  | .memberChildren _ _ => "Children"
  | .setLiteral _ _ => "\x7b\x7d"
  | .crossJoin _ _ _ => "CrossJoin"
  | .filter _ _ _ _ => "Filter"
  | .order _ _ _ _ => "Order"
  | .aggregate _ _ function _ => function.name
  | .walkCount _ _ | .listCount _ => "Count"
  | .arithmetic op _ _ => op.symbol
  | .comparison op _ _ => op.symbol
  | .and _ _ => "AND"
  | .or _ _ => "OR"
  | .not _ => "NOT"
  | .iif _ _ _ => "IIf"
  | .packedList c _ _ | .copiedList c => c.name
  | .effect _ => "Void"
  | .custom own _ => own.name

def className : Calc → String
  | .constant _ | .memberLiteral _ _ => "ConstantCalc"
  | .currentValue => "ValueCalc"
  | .currentMember _ => "HierarchyCurrentMemberCalc"
  | .memberValue _ => "MemberValueCalc"
  | .tupleValue _ => "TupleValueCalc"
  | .tupleLiteral _ => "TupleCalc"
  | .memberName _ => "MemberNameCalc"
  | .memberParent _ => "MemberParentCalc"
  | .memberLevel _ => "MemberLevelCalc"
  | .memberHierarchy _ => "MemberHierarchyCalc"
  | .hierarchyMembers _ _ => "HierarchyMembersCalc"
  | .levelMembers _ _ _ => "LevelMembersCalc"
  | .memberChildren _ _ => "MemberChildrenCalc"
  | .setLiteral _ _ => "SetLiteralCalc"
  | .crossJoin _ _ _ => "CrossJoinIterCalc"
  | .filter _ _ _ _ => "FilterCalc"
  | .order _ _ _ _ => "OrderCalc"
  | .aggregate _ _ _ _ => "AggregateCalc"
  | .walkCount _ _ => "CountCalc"
  | .listCount _ => "ListCountCalc"
  | .arithmetic _ _ _ => "ArithmeticCalc"
  | .comparison _ _ _ => "ComparisonCalc"
  | .and _ _ => "AndCalc"
  | .or _ _ => "OrCalc"
  | .not _ => "NotCalc"
  | .iif _ _ _ => "IifCalc"
  | .packedList _ _ _ => "IterableListCalc"
  | .copiedList _ => "CopyListCalc"
  | .effect _ => "VoidCalc"
  | .custom own _ => own.className

/-- A level by name, or by depth where the hierarchy has none. -/
def levelLabel (h : Hierarchy) (depth : Nat) : String :=
  match h.level? depth with
  | some level => level.uniqueName
  | none => h.uniqueName ++ ".<depth " ++ toString depth ++ ">"

def ownArguments : Calc → List (String × Json)
  | .constant value => [("value", value.toJson)]
  | .currentMember h | .hierarchyMembers h _ => [("hierarchy", .string h.uniqueName)]
  | .memberLiteral _ m => [("value", .string m.uniqueName)]
  | .levelMembers h depth _ => [("level", .string (levelLabel h depth))]
  | .order _ _ descending _ => [("direction", .string (if descending then "DESC" else "ASC"))]
  | .aggregate _ _ function _ => [("function", .string function.name)]
  | .walkCount _ _ => [("empties", .string "INCLUDEEMPTY")]
  | .custom own _ => own.args
  | _ => []

/-- What every calc declares comes first. -/
def arguments (c : Calc) : Arguments :=
  Arguments.empty.setAll <|
    [("name", .string c.name), ("class", .string c.className),
      ("type", .string c.type.display), ("resultStyle", .string c.style.name)] ++
      c.ownArguments

/-! ### Dependencies -/

/-- Whether the value can change with the current member of a hierarchy alone. -/
def dependsOn (h : Hierarchy) : Calc → Bool :=
  foldTree fun c depends =>
    c.rule.dependsOn h ((c.children.zip depends).map fun child => ⟨child.2, child.1.type⟩)

def dependences (h : Hierarchy) (calcs : List Calc) : List Dependence :=
  calcs.map fun c => ⟨c.dependsOn h, c.type⟩

/-! ### Declarations that fit -/

/-- Whether the calc's variant can have the type and the style that the calc declares. -/
def fits (c : Calc) : Bool := c.variant.accepts c.type c.style

/-- A calc that does not fit its variant is a mistake of whoever made it. -/
def checked (c : Calc) : Outcome Calc :=
  if c.fits then .ok c
  else violate (.misfit c.variant.name c.type c.style)

end Calc

end CubeCalc
