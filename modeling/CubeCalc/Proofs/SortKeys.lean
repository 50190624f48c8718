import CubeCalc.Proofs.MemberOrder
import CubeCalc.Proofs.SortInPlace
/-!
# Sorting by columns that there are

Keys on columns which all rows have never fail to compare two of them, and they compare as a total
order does, the first key above all. So the list is sorted by that order, in place and aside alike.
-/

namespace CubeCalc

open Outcome

instance (order : MemberOrder) : Std.TransCmp order.compare := by
  cases order with
  | position => exact inferInstanceAs (Std.TransCmp Member.compare)
  | name => exact inferInstanceAs (Std.TransCmp (compareOn Member.name))
  | depth => exact inferInstanceAs (Std.TransCmp (compareOn Member.depth))

namespace SortKey

variable {key : SortKey} {keys : List SortKey} {a b : Tuple} {rows : List Tuple} {arity : Nat}

/-- The member that a key looks at. It does not matter for rows that lack the column. -/
def look (key : SortKey) (row : Tuple) : Member := row.getD key.column (.all "" "")

/-- How a key compares rows that have its column. -/
def ordering (key : SortKey) (a b : Tuple) : Ordering :=
  if key.isDescending then key.order.compare (key.look b) (key.look a)
  else key.order.compare (key.look a) (key.look b)

instance (key : SortKey) : Std.TransCmp key.ordering where
  eq_swap := by
    intro a b
    rw [ordering, ordering]
    split
    · exact Std.OrientedCmp.eq_swap
    · exact Std.OrientedCmp.eq_swap
  isLE_trans := by
    intro a b c
    rw [ordering, ordering, ordering]
    split
    · exact fun hab hbc => Std.TransCmp.isLE_trans hbc hab
    · exact Std.TransCmp.isLE_trans

theorem getElem?_eq_look (ha : key.column < a.length) : a[key.column]? = some (key.look a) := by
  rw [look, List.getD_eq_getElem?_getD, List.getElem?_eq_getElem ha]
  rfl

theorem compare_eq (ha : key.column < a.length) (hb : key.column < b.length) :
    key.compare a b = .ok (key.ordering a b) := by
  rw [compare, getElem?_eq_look ha, getElem?_eq_look hb, ordering]
  dsimp only
  split
  · rw [← Std.OrientedCmp.eq_swap]
  · rfl

/-- A key counts where those before it do not tell two rows apart. -/
def orderingBy : List SortKey → Tuple → Tuple → Ordering
  | [], _, _ => .eq
  | key :: keys, a, b => compareLex key.ordering (orderingBy keys) a b

instance (keys : List SortKey) : Std.TransCmp (orderingBy keys) := by
  induction keys with
  | nil =>
    exact { eq_swap := rfl, isLE_trans := fun hab _ => hab }
  | cons key keys ih =>
    exact inferInstanceAs (Std.TransCmp (compareLex key.ordering (orderingBy keys)))

theorem foldlM_compare_eq (hkeys : ∀ key ∈ keys, key.column < a.length ∧ key.column < b.length)
    (start : Ordering) :
    keys.foldlM (fun order key => if order = .eq then key.compare a b else .ok order) start =
      .ok (start.then (orderingBy keys a b)) := by
  induction keys generalizing start with
  | nil =>
    rw [List.foldlM_nil, orderingBy, Ordering.then_eq]
    rfl
  | cons key keys ih =>
    rw [List.forall_mem_cons] at hkeys
    rw [List.foldlM_cons, compare_eq hkeys.1.1 hkeys.1.2]
    cases start with
    | eq => exact ih hkeys.2 (key.ordering a b)
    | lt | gt => exact ih hkeys.2 _

theorem decides_compareAll (hrows : ∀ row ∈ rows, row.length = arity)
    (hkeys : ∀ key ∈ keys, key.column < arity) :
    RowComparison.Decides (compareAll keys) (orderingBy keys) rows := by
  intro a ha b hb
  refine foldlM_compare_eq (fun key hkey => ?_) .eq
  rw [hrows a ha, hrows b hb]
  exact ⟨hkeys key hkey, hkeys key hkey⟩

end SortKey

/-- A sort by columns that there are is the sort by their order. -/
theorem TupleList.Represents.sortByKeys_eq {l : TupleList} {p : PlainList} (hl : l.Represents p)
    {keys : List SortKey} (hkeys : ∀ key ∈ keys, key.column < p.arity) :
    l.sortByKeys keys = match l.sortBy (SortKey.orderingBy keys) with
      | .ok sorted => (sorted, .ok ())
      | .error failure => (l, .error failure) := by
  have hdecides : RowComparison.Decides (SortKey.compareAll keys) (SortKey.orderingBy keys)
      l.rows := by
    rw [hl.holds.rows_eq]
    exact SortKey.decides_compareAll (fun row => hl.row_length_eq) hkeys
  rw [TupleList.sortByKeys, TupleList.sortBy, RowComparison.sort_eq hdecides]
  cases l.checkMutable with
  | error failure => rfl
  | ok => rfl

end CubeCalc
