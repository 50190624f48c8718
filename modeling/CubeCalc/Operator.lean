import CubeCalc.Double
/-!
# Scalar operators

Arithmetic and comparison of numbers that may be missing.
-/

namespace CubeCalc

inductive ArithmeticOp where
  | add
  | subtract
  | multiply
  | divide
  deriving DecidableEq, Repr

namespace ArithmeticOp

def symbol : ArithmeticOp → String
  | .add => "+"
  | .subtract => "-"
  | .multiply => "*"
  | .divide => "/"

/-- A missing number makes the result missing, but beside a number that is there sums and
differences take it for zero. What is divided by zero is missing, too. -/
def apply : ArithmeticOp → Option Double → Option Double → Option Double
  | .add, none, none | .subtract, none, none => none
  | .add, l, r => some (l.getD 0 + r.getD 0)
  | .subtract, l, r => some (l.getD 0 - r.getD 0)
  | .multiply, some l, some r => some (l * r)
  | .divide, some l, some r => if r == 0 then none else some (l / r)
  | _, _, _ => none

end ArithmeticOp

inductive ComparisonOp where
  | equal
  | notEqual
  | less
  | lessOrEqual
  | greater
  | greaterOrEqual
  deriving DecidableEq, Repr

namespace ComparisonOp

def symbol : ComparisonOp → String
  | .equal => "="
  | .notEqual => "<>"
  | .less => "<"
  | .lessOrEqual => "<="
  | .greater => ">"
  | .greaterOrEqual => ">="

def accepts : ComparisonOp → Ordering → Bool
  | .equal, o => o = .eq
  | .notEqual, o => o ≠ .eq
  | .less, o => o = .lt
  | .lessOrEqual, o => o ≠ .gt
  | .greater, o => o = .gt
  | .greaterOrEqual, o => o ≠ .lt

/-- No comparison with a missing number holds, nor with one that is not a number. -/
def apply (op : ComparisonOp) (l r : Option Double) : Bool :=
  match l, r with
  | some l, some r => (l.order? r).any op.accepts
  | _, _ => false

end ComparisonOp

end CubeCalc
