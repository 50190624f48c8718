import CubeCalc.Calc.Simplify
/-!
# Evaluating calcs

The value of a calc in a context. Sets are walked in the caller's context moved to each of their
tuples, and the caller's own context is never changed.
-/

namespace CubeCalc

/-- The cell at a context overridden by members. -/
def Context.valueAt (ctx : Context) (members : List Member) : Outcome Value := do
  return .ofCell (← ctx.moveAll members).cell

def Context.childrenOf (ctx : Context) (m : Member) : List Member :=
  ((ctx.cube.hierarchyOf? m).map fun h => h.children m).getD []

/-- The pairs of two lists whose cell has a value. -/
def nonEmptyProduct (ctx : Context) (left right : TupleList) (limit : RowLimit) :
    Outcome TupleList :=
  (productRows left right).foldlM
    (fun kept row => do
      if (← ctx.valueAt row).isNull then return kept else kept.push row)
    (TupleList.new (left.arity + right.arity) limit)

/-! ### Sort keys -/

/-- A missing key comes first. -/
def compareKeys (a b : Option Double) : Ordering :=
  match a, b with
  | none, none => .eq
  | none, some _ => .lt
  | some _, none => .gt
  | some x, some y => x.totalCompare y

/-- Keys of tuples, the latest first. -/
abbrev SortKeys := List (Tuple × Option Double)

def SortKeys.keyOf (keys : SortKeys) (row : Tuple) : Option Double :=
  (keys.find? fun entry => entry.1 == row).bind (·.2)

def SortKeys.compare (keys : SortKeys) (descending : Bool) (a b : Tuple) : Ordering :=
  let order := compareKeys (keys.keyOf a) (keys.keyOf b)
  if descending then order.swap else order

def Value.observation : Value → Observation Double
  | .number x => .number x
  | .null => .missing
  | _ => .other

namespace Calc

mutual

def evaluate (ctx : Context) : Calc → Outcome Value
  | .constant value => .ok value
  | .currentValue => .ok (.ofCell ctx.cell)
  | .currentMember h => return .member (← ctx.member h)
  | .memberLiteral _ m => .ok (.member m)
  | .memberValue members => do
    match ← evaluateMembers ctx members with
    | some members => ctx.valueAt members
    | none => return .null
  | .tupleValue tuple => do
    match ← (← evaluate ctx tuple).toTuple with
    | some members => ctx.valueAt members
    | none => return .null
  | .tupleLiteral members => do
    return (← evaluateMembers ctx members).elim .null .tuple
  | .memberName member => do
    return (← (← evaluate ctx member).toMember).elim .null fun m => .string m.name
  | .memberParent member => do
    return ((← (← evaluate ctx member).toMember).bind Member.parent?).elim .null .member
  | .memberLevel member => do
    let level? := (← (← evaluate ctx member).toMember).bind fun m =>
      (ctx.cube.hierarchyOf? m).bind fun h => h.level? m.depth
    return level?.elim .null .level
  | .memberHierarchy member => do
    return ((← (← evaluate ctx member).toMember).bind ctx.cube.hierarchyOf?).elim .null .hierarchy
  | .hierarchyMembers h limit => do
    return .list (← TupleList.ofMembers h.members limit).fixed
  | .levelMembers h depth limit => do
    return .list (← TupleList.ofMembers (h.membersAtDepth depth) limit).fixed
  | .memberChildren member limit => do
    match ← (← evaluate ctx member).toMember with
    | some m => return .list (← TupleList.ofMembers (ctx.childrenOf m) limit)
    | none => return .list (TupleList.new 1 limit)
  | .setLiteral elements limit => do
    let arity := max ((elements.head?.map fun c => c.type.arity).getD 0) 1
    let empty ← TupleList.withCapacity arity elements.length limit
    return .list (← evaluateElements ctx empty elements)
  | .crossJoin left right limit => do
    let left ← (← evaluate ctx left).toList
    let right ← (← evaluate ctx right).toList
    if ctx.nonEmpty then
      return .iterable (.list (← nonEmptyProduct ctx left right limit).fixed)
    else
      limit.check (productLength left right)
      return .iterable (.product left right)
  | .filter set condition limit simplify => do
    let source ← (← evaluate (← set.contextFor simplify ctx) set).toSource
    let kept ← source.walk ctx (TupleList.new source.arity limit) fun kept row here => do
      if ← (← evaluate here condition).toBoolean then
        kept.addRow source.arity (source.wholeRow row)
      else return kept
    return .list kept
  | .order set key descending simplify => do
    let tuples ← (← evaluate (← set.contextFor simplify ctx) set).toList
    let keys : SortKeys ← (TupleSource.list tuples).walk ctx [] fun keys row here => do
      let value ← (← evaluate here key).toNumber
      return (← readColumns tuples.arity row, value) :: keys
    return .list (← tuples.copy.sortBy (keys.compare descending))
  | .aggregate set value function simplify => do
    let source ← (← evaluate (← set.contextFor simplify ctx) set).toSource
    let statistics : Accumulator Double ← source.walk ctx .start fun statistics _ here => do
      return statistics.add (← evaluate here value).observation
    return (statistics.compute function).elim .null .number
  | .walkCount set simplify => do
    let source ← (← evaluate (← set.contextFor simplify ctx) set).toSource
    return .number (Double.ofNat (← source.count))
  | .listCount set => do
    return .number (Double.ofNat (← (← evaluate ctx set).toList).length)
  | .arithmetic op left right => do
    let l ← (← evaluate ctx left).toNumber
    let r ← (← evaluate ctx right).toNumber
    return (op.apply l r).elim .null .number
  | .comparison op left right => do
    let l ← (← evaluate ctx left).toNumber
    let r ← (← evaluate ctx right).toNumber
    return .boolean (op.apply l r)
  | .and left right => do
    if ← (← evaluate ctx left).toBoolean then
      return .boolean (← (← evaluate ctx right).toBoolean)
    else return .boolean false
  | .or left right => do
    if ← (← evaluate ctx left).toBoolean then return .boolean true
    else return .boolean (← (← evaluate ctx right).toBoolean)
  | .not operand => do
    return .boolean !(← (← evaluate ctx operand).toBoolean)
  | .iif condition thenCalc elseCalc => do
    if ← (← evaluate ctx condition).toBoolean then evaluate ctx thenCalc else evaluate ctx elseCalc
  | .packedList c style limit => do
    let packed ← (← (← evaluate ctx c).toSource).materialize limit
    return .list (if style = .list then packed.fixed else packed)
  | .copiedList c => do
    return .list (← (← evaluate ctx c).toList).copy
  | .effect c => do
    let value ← evaluate ctx c
    if c.style = .iterable then let _ ← value.toSource
    return .null
  | .custom own _ =>
    match own.failure? with
    | some reason => fail (.evaluation reason)
    | none => own.variant.narrow own.answer

/-- The members that calcs evaluate to, up to the first that has none. -/
def evaluateMembers (ctx : Context) : List Calc → Outcome (Option (List Member))
  | [] => .ok (some [])
  | c :: rest => do
    match ← (← evaluate ctx c).toMember with
    | some m => return (← evaluateMembers ctx rest).map (m :: ·)
    | none => return none

/-- Adds the tuples that calcs evaluate to. An element without a tuple is left out. -/
def evaluateElements (ctx : Context) (l : TupleList) : List Calc → Outcome TupleList
  | [] => .ok l
  | c :: rest => do
    match ← (← evaluate ctx c).toTuple with
    | some row => evaluateElements ctx (← l.push row) rest
    | none => evaluateElements ctx l rest

end

end Calc

end CubeCalc
