import CubeCalc.Tuple.Interrupted
import CubeCalc.Tuple.List
/-!
# Sorting by columns

Rows are compared by the members of some columns. A row that lacks a column cannot be compared, and
the sort ends where that comes up.
-/

namespace CubeCalc

inductive MemberOrder where
  | position
  | name
  | depth
  deriving DecidableEq, Repr

def MemberOrder.compare : MemberOrder → Member → Member → Ordering
  | .position, m, n => m.compare n
  | .name, m, n => Ord.compare m.name n.name
  | .depth, m, n => Ord.compare m.depth n.depth

structure SortKey where
  column : Nat
  order : MemberOrder := .position
  isDescending : Bool := false
  deriving DecidableEq, Repr

namespace SortKey

def compare (key : SortKey) (a b : Tuple) : Outcome Ordering :=
  match a[key.column]?, b[key.column]? with
  | some m, some n =>
    let order := key.order.compare m n
    .ok (if key.isDescending then order.swap else order)
  | _, _ => violate .outOfRange

/-- A key is looked at only where the keys before it do not tell two rows apart. -/
def compareAll (keys : List SortKey) (a b : Tuple) : Outcome Ordering :=
  keys.foldlM (fun order key => if order = .eq then key.compare a b else .ok order) .eq

end SortKey

/-- Sorts the rows by keys, the first one above all. If that fails, packed rows are as before, since
they are sorted aside, and all others as the sort in place has left them. -/
def TupleList.sortByKeys (l : TupleList) (keys : List SortKey) : TupleList × Outcome Unit :=
  let compare : RowComparison := SortKey.compareAll keys
  match l.checkMutable with
  | .error failure => (l, .error failure)
  | .ok () =>
    match compare.sort l.rows, l.storage with
    | .ok rows, storage => ({ l with storage := storage.refill rows }, .ok ())
    | .error failure, .packed _ => (l, .error failure)
    | .error failure, storage =>
      ({ l with storage := storage.refill (compare.leftBySort l.rows) }, .error failure)

end CubeCalc
