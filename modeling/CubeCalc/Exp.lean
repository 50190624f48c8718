import CubeCalc.Operator
import CubeCalc.Statistic.Accumulator
/-!
# Expressions

What a query front end hands over: literals, members, sets and functions on them, with hierarchies
and members still by name.
-/

namespace CubeCalc

inductive Literal where
  | null
  | boolean (b : Bool)
  | number (x : Float)
  | string (s : String)
  deriving Repr

inductive Exp where
  | literal (value : Literal)
  /-- A member by its unique name, or by its plain one. -/
  | member (name : String)
  | currentMember (hierarchy : String)
  | currentValue
  | members (hierarchy : String)
  /-- The members of a hierarchy at a depth, the top being zero. -/
  | levelMembers (hierarchy : String) (depth : Nat)
  | children (member : Exp)
  | parent (member : Exp)
  | name (member : Exp)
  | level (member : Exp)
  | hierarchy (member : Exp)
  | tuple (members : List Exp)
  | set (elements : List Exp)
  | crossJoin (left right : Exp)
  | filter (set condition : Exp)
  | order (set key : Exp) (descending : Bool)
  /-- Without a value the cell is aggregated. -/
  | aggregate (function : AggregateFunction) (set : Exp) (value? : Option Exp)
  | count (set : Exp) (includeEmpty : Bool)
  | arithmetic (op : ArithmeticOp) (left right : Exp)
  | comparison (op : ComparisonOp) (left right : Exp)
  | and (left right : Exp)
  | or (left right : Exp)
  | not (operand : Exp)
  | iif (condition thenExp elseExp : Exp)
  deriving Repr

namespace Literal

/-- Equality of literals, under which a number that is not one differs from itself. -/
def equals : Literal → Literal → Bool
  | .null, .null => true
  | .boolean a, .boolean b => a == b
  | .number x, .number y => x == y
  | .string s, .string t => s == t
  | _, _ => false

end Literal

namespace Exp

mutual

/-- Expressions are equal when they are built alike over equal literals and names. -/
def equals : Exp → Exp → Bool
  | .literal v, .literal w => v.equals w
  | .member n, .member m => n == m
  | .currentMember h, .currentMember k => h == k
  | .currentValue, .currentValue => true
  | .members h, .members k => h == k
  | .levelMembers h d, .levelMembers k e => h == k && d == e
  | .children a, .children b => a.equals b
  | .parent a, .parent b => a.equals b
  | .name a, .name b => a.equals b
  | .level a, .level b => a.equals b
  | .hierarchy a, .hierarchy b => a.equals b
  | .tuple as, .tuple bs => allEqual as bs
  | .set as, .set bs => allEqual as bs
  | .crossJoin a b, .crossJoin c d => a.equals c && b.equals d
  | .filter a b, .filter c d => a.equals c && b.equals d
  | .order a b x, .order c d y => a.equals c && b.equals d && x == y
  | .aggregate f a v?, .aggregate g b w? => f == g && a.equals b && bothEqual v? w?
  | .count a x, .count b y => a.equals b && x == y
  | .arithmetic o a b, .arithmetic p c d => o == p && a.equals c && b.equals d
  | .comparison o a b, .comparison p c d => o == p && a.equals c && b.equals d
  | .and a b, .and c d => a.equals c && b.equals d
  | .or a b, .or c d => a.equals c && b.equals d
  | .not a, .not b => a.equals b
  | .iif a b c, .iif d e f => a.equals d && b.equals e && c.equals f
  | _, _ => false

def bothEqual : Option Exp → Option Exp → Bool
  | none, none => true
  | some a, some b => a.equals b
  | _, _ => false

def allEqual : List Exp → List Exp → Bool
  | [], [] => true
  | a :: as, b :: bs => a.equals b && allEqual as bs
  | _, _ => false

end

instance : BEq Exp := ⟨equals⟩

/-! ### Shorthands -/

def number (x : Float) : Exp := .literal (.number x)

def string (s : String) : Exp := .literal (.string s)

end Exp

end CubeCalc
