import CubeCalc.Failure
import CubeCalc.Member
/-!
# Comparing rows

A row that lacks a column cannot be compared, so that a comparison may fail, and with it a sort.
-/

namespace CubeCalc

abbrev RowComparison := Tuple → Tuple → Outcome Ordering

namespace RowComparison

def isLess (compare : RowComparison) (a b : Tuple) : Outcome Bool := do
  return (← compare a b) == .lt

/-- Whether a row stays before another one. Rows that cannot be compared stay as they are. -/
def stays (compare : RowComparison) (a b : Tuple) : Bool :=
  match compare a b with
  | .ok order => order.isLE
  | .error _ => true

/-- Sorts, or fails. Rows that compare as equal keep their order. Rows that cannot be compared end
up side by side, as what comes before the failure does not tell them apart. -/
def sort (compare : RowComparison) (rows : List Tuple) : Outcome (List Tuple) := do
  let sorted := rows.mergeSort compare.stays
  let _ ← (sorted.zip sorted.tail).mapM fun pair => compare pair.1 pair.2
  return sorted

end RowComparison

end CubeCalc
