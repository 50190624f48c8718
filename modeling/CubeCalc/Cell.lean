import CubeCalc.Decimal.Layout
import CubeCalc.Double
/-!
# Cells

What a cube holds at one coordinate. The numbers may be of any type that has a zero and a one.
-/

namespace CubeCalc

inductive CellError where
  /-- A fact below a roll-up is not a number. -/
  | value
  deriving DecidableEq, Repr

inductive CellValue (α : Type) where
  | empty
  | number (n : α)
  | text (s : String)
  | boolean (b : Bool)
  | error (cause : CellError)
  deriving Repr

abbrev Cell := CellValue Double

namespace CellValue

variable {α : Type}

def isEmpty : CellValue α → Bool
  | .empty => true
  | _ => false

/-- Truth values count as one and zero. -/
def asNumber? [OfNat α 0] [OfNat α 1] : CellValue α → Option α
  | .number n => some n
  | .boolean b => some (if b then 1 else 0)
  | _ => none

end CellValue

/-- Numbers are shown without exponent and without a fraction that is zero, and a digit halfway
between two is rounded up. -/
def displayLayout : Decimal.Layout := ⟨.up, none, ""⟩

def displayNumber (x : Double) : String :=
  let x := x.toFloat
  if x.isNaN then "NaN"
  else if x.isInf then (if x < 0 then "-inf" else "inf")
  else displayLayout.render x

def displayBoolean (b : Bool) : String := if b then "TRUE" else "FALSE"

def Cell.display : Cell → String
  | .empty => ""
  | .number x => displayNumber x
  | .text s => s
  | .boolean b => displayBoolean b
  | .error .value => "#VALUE"

/-- Equality of cells, under which a number that is not one differs from itself. -/
def Cell.equals : Cell → Cell → Bool
  | .empty, .empty => true
  | .number x, .number y => x == y
  | .text s, .text t => s == t
  | .boolean a, .boolean b => a == b
  | .error a, .error b => a == b
  | _, _ => false

end CubeCalc
