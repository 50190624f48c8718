import CubeCalc.Proofs.ListRefinement
import Mathlib.Data.Nat.Basic
/-!
# What cursors yield

A cursor yields some rows if it can be moved forward as often as there are rows, and never again,
and stands on one row after the other. The cursor of a product counts through the pairs of two
lists. Its two positions are the digits of one number.
-/

namespace CubeCalc

open Outcome

theorem Cursor.count_succ {κ : Type} [Cursor κ] (moves : Nat) (cursor : κ) (counted : Nat) :
    count (moves + 1) cursor counted = (forward cursor).1 >>= fun found =>
      if found then count moves (forward cursor).2 (counted + 1) else .ok counted := rfl

/-! ### Lists and stored rows -/

theorem TupleList.length_rows (l : TupleList) : l.rows.length = l.length := by
  obtain ⟨storage, isMutable, limit⟩ := l
  cases storage <;> simp [rows, length, Storage.rows, Storage.length, Packed.rows]

namespace RowCursor

variable {arity : Nat} {rows : List Tuple}

/-- Rows of the arity that is declared are all come to. -/
theorem runs_of_forall (hrows : ∀ row ∈ rows, checkLength arity row = .ok ())
    (row? : Option Tuple) :
    Cursor.Runs (RowCursor.mk arity rows row?) rows.length := by
  intro k
  induction rows generalizing k row? with
  | nil =>
    have hstays : ∀ k row?, (Cursor.forwardBy (RowCursor.mk arity [] row?) k).remaining = [] := by
      intro k
      induction k with
      | zero => exact fun _ => rfl
      | succ k ih => exact fun _ => ih none
    change (forward (Cursor.forwardBy _ k)).1 = _
    rw [forward, hstays k row?]
    rfl
  | cons row rest ih =>
    rw [List.forall_mem_cons] at hrows
    cases k with
    | zero =>
      change (checkLength arity row).map (fun _ => true) = _
      rw [hrows.1]
      rfl
    | succ k =>
      have hrest := ih hrows.2 (some row) k
      rw [List.length_cons]
      simpa [Cursor.forwardBy, Cursor.forward, forward] using hrest

/-- The first row that is too short or too long is refused when the cursor comes to it. -/
theorem count_eq (rows : List Tuple) (row? : Option Tuple) (counted : Nat) :
    Cursor.count (rows.length + 1) (RowCursor.mk arity rows row?) counted =
      (rows.mapM (checkLength arity)).map fun _ => counted + rows.length := by
  induction rows generalizing row? counted with
  | nil => rfl
  | cons row rest ih =>
    have hrest := ih (some row) (counted + 1)
    have hlength : counted + 1 + rest.length = counted + (row :: rest).length := by
      rw [List.length_cons]
      omega
    rw [hlength] at hrest
    rw [List.mapM_cons, List.length_cons, Cursor.count_succ, map_bind]
    change ((checkLength arity row).map fun _ => true) >>= _ = _
    rw [bind_map]
    refine bind_congr fun _ _ => ?_
    simp only [if_true]
    refine hrest.trans ?_
    cases rest.mapM (checkLength arity) <;> rfl

end RowCursor

namespace Cursor.Runs

variable {κ : Type} [Cursor κ] {cursor : κ} {n : Nat}

theorem forward_eq (hcursor : Runs cursor n) : (forward cursor).1 = .ok (decide (0 < n)) :=
  hcursor 0

theorem tail (hcursor : Runs cursor (n + 1)) : Runs (forward cursor).2 n := by
  intro k
  have hnext := hcursor (k + 1)
  rw [forwardBy] at hnext
  rw [hnext]
  congr 2
  exact propext Nat.succ_lt_succ_iff

/-- A cursor that is moved until it cannot be moved any more has been moved as often as it can. -/
theorem count_eq (hcursor : Runs cursor n) {moves : Nat} (hmoves : n < moves) (counted : Nat) :
    count moves cursor counted = .ok (counted + n) := by
  induction moves generalizing cursor n counted with
  | zero => omega
  | succ moves ih =>
    rw [count_succ, hcursor.forward_eq, ok_bind]
    cases n with
    | zero => rfl
    | succ n =>
      have hrest := ih hcursor.tail (Nat.lt_of_succ_lt_succ hmoves) (counted + 1)
      rw [if_pos (decide_eq_true (Nat.succ_pos n)), hrest]
      congr 1
      omega

end Cursor.Runs

/-! ### Products -/

namespace ProductCursor

variable (left right : TupleList)

/-- The cursor on a pair. The left position is the higher digit of the pair's number. -/
def onPair (k : Nat) : ProductCursor :=
  ⟨left, right, k / right.length, k % right.length, true⟩

variable {left right} {k : Nat}

theorem advance_onPair (hright : 0 < right.length) :
    (onPair left right k).advance = onPair left right (k + 1) := by
  have hdigits : k % right.length + right.length * (k / right.length) = k :=
    Nat.mod_add_div k right.length
  have hlt : k % right.length < right.length := Nat.mod_lt k hright
  unfold advance onPair
  split
  · next hwrap =>
    simp only at hwrap
    have hnext : (k + 1) / right.length = k / right.length + 1 ∧ (k + 1) % right.length = 0 := by
      rw [Nat.div_mod_unique hright, Nat.mul_succ]
      omega
    rw [hnext.1, hnext.2]
  · next hwrap =>
    simp only at hwrap
    have hnext : (k + 1) / right.length = k / right.length ∧
        (k + 1) % right.length = k % right.length + 1 := by
      rw [Nat.div_mod_unique hright]
      omega
    rw [hnext.1, hnext.2]

/-- From a pair the cursor goes on to the next one, and behind the last one it stays. -/
theorem forward_onPair (hright : 0 < right.length) :
    Cursor.forward (onPair left right k) =
      if k < left.length * right.length then
        (.ok (decide (k + 1 < left.length * right.length)), onPair left right (k + 1))
      else (.ok false, onPair left right k) := by
  have hend : ∀ n, left.length ≤ n / right.length ↔ left.length * right.length ≤ n := fun n =>
    Nat.le_div_iff_mul_le hright
  have hempty : right.isEmpty = false := by
    simp [TupleList.isEmpty]
    omega
  change forward (onPair left right k) = _
  rw [forward]
  by_cases hk : k < left.length * right.length
  · have hpair : ¬ left.length ≤ k / right.length := by
      rw [hend]
      omega
    have hnext : (k + 1) / right.length < left.length ↔ k + 1 < left.length * right.length := by
      rw [← Nat.not_le, hend, Nat.not_le]
    rw [if_pos hk, advance_onPair hright]
    simp [onPair, hempty, hpair, hnext]
  · have hpair : left.length ≤ k / right.length := (hend k).mpr (Nat.le_of_not_lt hk)
    rw [if_neg hk]
    simp [onPair, hpair]

theorem forward_start (hpairs : 0 < left.length * right.length) :
    Cursor.forward (start left right) = (.ok true, onPair left right 0) := by
  have hleft : 0 < left.length := Nat.pos_of_mul_pos_right hpairs
  have hright : 0 < right.length := Nat.pos_of_mul_pos_left hpairs
  have hempty : right.isEmpty = false := by
    simp [TupleList.isEmpty]
    omega
  change forward (start left right) = _
  simp [forward, start, onPair, hempty, Nat.not_le.mpr hleft]

theorem forward_start_of_empty (hpairs : left.length * right.length = 0) :
    Cursor.forward (start left right) = (.ok false, start left right) := by
  change forward (start left right) = _
  rcases Nat.mul_eq_zero.mp hpairs with hleft | hright
  · simp [forward, start, hleft]
  · simp [forward, start, TupleList.isEmpty, hright]

/-- After its first step the cursor is on the first pair, and each step after that takes it one pair
further, up to the place behind the last. -/
theorem forwardBy_start (hpairs : 0 < left.length * right.length) (k : Nat) :
    Cursor.forwardBy (start left right) (k + 1) =
      onPair left right (min k (left.length * right.length)) := by
  have hright : 0 < right.length := Nat.pos_of_mul_pos_left hpairs
  induction k with
  | zero =>
    rw [Cursor.forwardBy, forward_start hpairs, Nat.zero_min]
    rfl
  | succ k ih =>
    rw [Cursor.forwardBy_succ, ih, forward_onPair hright]
    by_cases hk : k < left.length * right.length
    · rw [Nat.min_eq_left (Nat.le_of_lt hk), if_pos hk, Nat.min_eq_left hk]
    · rw [Nat.min_eq_right (Nat.le_of_not_lt hk), if_neg (Nat.lt_irrefl _),
        Nat.min_eq_right (by omega)]

theorem runs_start (left right : TupleList) :
    Cursor.Runs (start left right) (left.length * right.length) := by
  intro k
  rcases Nat.eq_zero_or_pos (left.length * right.length) with hempty | hpairs
  · -- An empty product never lets the cursor leave its start.
    have hstays : ∀ k, Cursor.forwardBy (start left right) k = start left right := by
      intro k
      induction k with
      | zero => rfl
      | succ k ih => rw [Cursor.forwardBy_succ, ih, forward_start_of_empty hempty]
    rw [hstays, forward_start_of_empty hempty, hempty]
    simp
  · have hright : 0 < right.length := Nat.pos_of_mul_pos_left hpairs
    cases k with
    | zero =>
      rw [Cursor.forwardBy, forward_start hpairs]
      simpa using hpairs
    | succ k =>
      rw [forwardBy_start hpairs, forward_onPair hright]
      by_cases hk : k < left.length * right.length
      · rw [Nat.min_eq_left (Nat.le_of_lt hk), if_pos hk]
      · rw [Nat.min_eq_right (Nat.le_of_not_lt hk), if_neg (Nat.lt_irrefl _)]
        simp
        omega

end ProductCursor

theorem length_productRows (left right : TupleList) :
    (productRows left right).length = left.length * right.length := by
  simp [productRows, List.length_flatMap, TupleList.length_rows]

/-! ### Sources -/

namespace SourceCursor

theorem forwardBy_positions (c : PositionCursor TupleList) (k : Nat) :
    Cursor.forwardBy (positions c) k = positions (Cursor.forwardBy c k) := by
  induction k generalizing c with
  | zero => rfl
  | succ k ih => exact ih (Cursor.forward c).2

theorem forwardBy_product (c : ProductCursor) (k : Nat) :
    Cursor.forwardBy (product c) k = product (Cursor.forwardBy c k) := by
  induction k generalizing c with
  | zero => rfl
  | succ k ih => exact ih (Cursor.forward c).2

theorem forwardBy_rows (c : RowCursor) (k : Nat) :
    Cursor.forwardBy (rows c) k = rows (Cursor.forwardBy c k) := by
  induction k generalizing c with
  | zero => rfl
  | succ k ih => exact ih (Cursor.forward c).2

theorem count_rows (moves : Nat) (c : RowCursor) (counted : Nat) :
    Cursor.count moves (rows c) counted = Cursor.count moves c counted := by
  induction moves generalizing c counted with
  | zero => rfl
  | succ moves ih =>
    rw [Cursor.count_succ, Cursor.count_succ]
    apply Outcome.bind_congr
    intro found _
    cases found with
    | false => rfl
    | true => exact ih (Cursor.forward c).2 (counted + 1)

end SourceCursor

namespace TupleSource

/-- The cursor of a source runs through as many tuples as the source has, if it can come to all of
them. -/
theorem runs_cursor {source : TupleSource}
    (hreach : ∀ row ∈ source.tuples, source.reach row = .ok ()) :
    Cursor.Runs source.cursor source.tuples.length := by
  intro k
  cases source with
  | list l =>
    rw [cursor, SourceCursor.forwardBy_positions, tuples, l.length_rows]
    exact PositionCursor.runs_start l k
  | product left right =>
    rw [cursor, SourceCursor.forwardBy_product, tuples, length_productRows]
    exact ProductCursor.runs_start left right k
  | rows arity stored =>
    rw [cursor, SourceCursor.forwardBy_rows]
    exact RowCursor.runs_of_forall hreach none k

theorem count_of_reach {source : TupleSource}
    (hreach : ∀ row ∈ source.tuples, source.reach row = .ok ()) :
    source.count = .ok source.tuples.length := by
  rw [count, (runs_cursor hreach).count_eq (Nat.lt_succ_self _), Nat.zero_add]

/-- To count the tuples of a source is to come to each of them. -/
theorem count_eq (source : TupleSource) :
    source.count = (source.tuples.mapM source.reach).map fun _ => source.tuples.length := by
  have hcount : (∀ row ∈ source.tuples, source.reach row = .ok ()) →
      source.count = (source.tuples.mapM source.reach).map fun _ => source.tuples.length := by
    intro hreach
    rw [count_of_reach hreach, mapM_eq_ok hreach, map_ok]
  cases source with
  | list | product => exact hcount fun _ _ => rfl
  | rows arity stored =>
    rw [count, cursor, SourceCursor.count_rows, RowCursor.start, tuples, RowCursor.count_eq,
      Nat.zero_add]
    rfl

end TupleSource

end CubeCalc
