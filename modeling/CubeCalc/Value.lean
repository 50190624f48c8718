import CubeCalc.Json.Value
import CubeCalc.Tuple.Source
/-!
# Values

What an expression evaluates to, and how a value of one kind is read as one of another.
-/

namespace CubeCalc

inductive Value where
  | null
  | boolean (b : Bool)
  | number (x : Double)
  | string (s : String)
  | member (m : Member)
  | tuple (t : Tuple)
  | level (level : Level)
  | hierarchy (h : Hierarchy)
  | list (tuples : TupleList)
  | iterable (source : TupleSource)
  deriving Repr

namespace Value

def kind : Value → ValueKind
  | .null => .null
  | .boolean _ => .boolean
  | .number _ => .numeric
  | .string _ => .string
  | .member _ => .member
  | .tuple _ => .tuple
  | .level _ => .level
  | .hierarchy _ => .hierarchy
  | .list _ => .list
  | .iterable _ => .iterable

def isNull : Value → Bool
  | .null => true
  | _ => false

/-- A cell with an error has no value to compute with. -/
def ofCell : Cell → Value
  | .empty | .error _ => .null
  | .number x => .number x
  | .text s => .string s
  | .boolean b => .boolean b

/-! ### Types of literals -/

def openTuple (arity : Nat) : StaticType := .tuple (List.replicate arity (.member none))

/-- Sets of members have members for elements, all others have tuples. -/
def openSet (arity : Nat) : StaticType :=
  .set (if arity = 1 then .member none else openTuple arity)

/-- The type of a literal, which leaves hierarchies open. -/
def literalType : Value → StaticType
  | .null => .null
  | .boolean _ => .boolean
  | .number _ => .numeric
  | .string _ => .string
  | .member _ => .member none
  | .tuple t => openTuple t.length
  | .level _ => .level none
  | .hierarchy _ => .hierarchy none
  | .list tuples => openSet tuples.arity
  | .iterable source => openSet source.arity

/-! ### Reading as another kind -/

def mismatch {α : Type} (v : Value) (expected : ValueKind) : Outcome α :=
  fail (.kindMismatch expected v.kind)

/-- Null is false, and a number is true unless it is zero. -/
def toBoolean : Value → Outcome Bool
  | .boolean b => .ok b
  | .number x => .ok (x != 0)
  | .null => .ok false
  | v => v.mismatch .boolean

def toNumber : Value → Outcome (Option Double)
  | .number x => .ok (some x)
  | .null => .ok none
  | v => v.mismatch .numeric

/-- Numbers and truth values read as they are displayed. -/
def toText : Value → Outcome (Option String)
  | .string s => .ok (some s)
  | .null => .ok none
  | .number x => .ok (some (displayNumber x))
  | .boolean b => .ok (some (displayBoolean b))
  | v => v.mismatch .string

def toMember : Value → Outcome (Option Member)
  | .member m => .ok (some m)
  | .null => .ok none
  | v => v.mismatch .member

/-- A member is a tuple of one. -/
def toTuple : Value → Outcome (Option Tuple)
  | .tuple t => .ok (some t)
  | .member m => .ok (some [m])
  | .null => .ok none
  | v => v.mismatch .tuple

def toLevel : Value → Outcome (Option Level)
  | .level l => .ok (some l)
  | .null => .ok none
  | v => v.mismatch .level

def toHierarchy : Value → Outcome (Option Hierarchy)
  | .hierarchy h => .ok (some h)
  | .null => .ok none
  | v => v.mismatch .hierarchy

def toList : Value → Outcome TupleList
  | .list tuples => .ok tuples
  | v => v.mismatch .list

def toSource : Value → Outcome TupleSource
  | .iterable source => .ok source
  | .list tuples => .ok (.list tuples)
  | v => v.mismatch .iterable

/-- The value, if all rows that it holds can be read. Only the rows of a source may be too short. -/
def readable : Value → Outcome Value
  | .iterable source => source.readable.map .iterable
  | v => .ok v

/-! ### Comparing and writing -/

/-- Sources are equal only to themselves, all else by content. Whether two values are one and the
same the caller has to say. -/
def equals (same : Bool) : Value → Value → Bool
  | .null, .null => true
  | .boolean a, .boolean b => a == b
  | .number x, .number y => x == y
  | .string s, .string t => s == t
  | .member a, .member b => a == b
  | .tuple a, .tuple b => a == b
  | .level a, .level b => a == b
  | .hierarchy a, .hierarchy b => a == b
  | .list a, .list b => a == b
  | .iterable _, .iterable _ => same
  | _, _ => false

def toJson : Value → Json
  | .null => .null
  | .boolean b => .bool b
  | .number x => .ofFloat x.toFloat
  | .string s => .string s
  | .member m => .string m.uniqueName
  | .tuple t => .names (t.map Member.uniqueName)
  | .level l => .string l.uniqueName
  | .hierarchy h => .string h.uniqueName
  | .list tuples => .array (tuples.rows.map fun row => .names (row.map Member.uniqueName))
  | .iterable source => .string ("<iterable of arity " ++ toString source.arity ++ ">")

end Value

end CubeCalc
