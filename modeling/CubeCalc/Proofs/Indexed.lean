import CubeCalc.Proofs.Outcome
import CubeCalc.Tuple.Cursor
/-!
# Reading by position

A collection that is read by position shows some rows if its members are the members of the rows.
Nothing more has to be known of it: rows that are read column by column, and a cursor over the
positions, then follow the rows as well.
-/

namespace CubeCalc

open Outcome

/-! ### What cursors yield -/

namespace Cursor

variable {κ : Type} [Cursor κ]

/-- The cursor can be moved forward as many times as it is said, and never again after that. -/
def Runs (cursor : κ) (count : Nat) : Prop :=
  ∀ k, (forward (forwardBy cursor k)).1 = .ok (decide (k < count))

/-- The cursor runs through the rows, and stands on each of them in turn. -/
structure Yields (cursor : κ) (rows : List Tuple) : Prop where
  runs : Runs cursor rows.length
  current_eq : ∀ i (hi : i < rows.length), current (forwardBy cursor (i + 1)) = .ok rows[i]

theorem forwardBy_succ (cursor : κ) (k : Nat) :
    forwardBy cursor (k + 1) = (forward (forwardBy cursor k)).2 := by
  induction k generalizing cursor with
  | zero => rfl
  | succ k ih => exact ih (forward cursor).2

/-- A cursor that counts down what is left runs through what is left. -/
theorem runs_of_left (left : κ → Nat)
    (hforward : ∀ c : κ, (forward c).1 = .ok (decide (0 < left c)))
    (hleft : ∀ c : κ, left (forward c).2 = left c - 1) (cursor : κ) :
    Runs cursor (left cursor) := by
  intro k
  induction k generalizing cursor with
  | zero => exact hforward cursor
  | succ k ih =>
    rw [forwardBy, ih, hleft]
    congr 2
    exact propext (by omega)

end Cursor

/-! ### Cursors over positions -/

namespace PositionCursor

variable {ι : Type} [Indexed ι]

theorem runs_start (list : ι) : Cursor.Runs (start list) (Indexed.length list) := by
  apply Cursor.runs_of_left fun c : PositionCursor ι => Indexed.length c.list - c.next
  · intro c
    change (forward c).1 = .ok (decide (0 < Indexed.length c.list - c.next))
    simp only [Nat.sub_pos_iff_lt]
    rw [forward]
    split <;> simp_all
  · intro c
    change Indexed.length (forward c).2.list - (forward c).2.next = _
    rw [forward]
    split
    · simp only
      omega
    · simp only
      omega

/-- A cursor that has not come to the end stands where it has been moved to. -/
theorem forwardBy_start (list : ι) {i : Nat} (hi : i < Indexed.length list) :
    Cursor.forwardBy (start list) (i + 1) = ⟨list, i + 1, some i⟩ := by
  have hforward : ∀ position?, i < Indexed.length list →
      (Cursor.forward (PositionCursor.mk list i position?)).2 = ⟨list, i + 1, some i⟩ := by
    intro position? hlt
    simp [Cursor.forward, forward, hlt]
  induction i with
  | zero => exact hforward none hi
  | succ i ih =>
    have hlt : i < Indexed.length list := by omega
    rw [Cursor.forwardBy_succ, ih hlt fun position? _ => by simp [Cursor.forward, forward, hlt]]
    exact hforward (some i) hi

end PositionCursor

theorem ColumnCursor.nextBy_eq {κ : Type} [Cursor κ] (it : ColumnCursor κ) (k : Nat) :
    it.nextBy k = ⟨Cursor.forwardBy it.cursor k, it.column⟩ := by
  induction k generalizing it with
  | zero => rfl
  | succ k ih => exact ih it.next.2

/-! ### Collections -/

namespace Indexed

variable {ι : Type} [Indexed ι] {list : ι} {arity : Nat} {rows : List Tuple}

structure Shows (list : ι) (arity : Nat) (rows : List Tuple) : Prop where
  arity_eq : Indexed.arity list = arity
  length_eq : Indexed.length list = rows.length
  uniform : ∀ row ∈ rows, row.length = arity
  member_eq : ∀ (index column : Nat) (hindex : index < rows.length)
    (hcolumn : column < rows[index].length),
    Indexed.member list column index = .ok rows[index][column]

namespace Shows

theorem row_eq (h : Shows list arity rows) {index : Nat} (hindex : index < rows.length) :
    row list index = .ok rows[index] := by
  rw [row, h.arity_eq, ← h.uniform _ (List.getElem_mem hindex)]
  apply mapM_range_eq
  intro column hcolumn
  exact h.member_eq index column hindex hcolumn

theorem row?_eq (h : Shows list arity rows) (index : Nat) :
    row? list index = .ok rows[index]? := by
  rw [row?, h.length_eq]
  split
  · next hindex =>
    rw [h.row_eq hindex, List.getElem?_eq_getElem hindex]
    rfl
  · next hindex => rw [List.getElem?_eq_none (Nat.le_of_not_lt hindex)]

theorem rows_eq (h : Shows list arity rows) : Indexed.rows list = .ok rows := by
  rw [Indexed.rows, h.length_eq]
  apply mapM_range_eq
  intro index hindex
  exact h.row_eq hindex

theorem yields (h : Shows list arity rows) : Cursor.Yields (PositionCursor.start list) rows where
  runs := by
    rw [← h.length_eq]
    exact PositionCursor.runs_start list
  current_eq i hi := by
    rw [PositionCursor.forwardBy_start list (by rwa [h.length_eq])]
    exact h.row_eq hi

theorem column_eq (h : Shows list arity rows) {column : Nat} (hcolumn : column < arity) :
    ∃ it, ColumnCursor.start (PositionCursor.start list) column = .ok it ∧
      ∀ k, (it.nextBy k).next.1 = .ok (rows[k]?.bind (·[column]?)) := by
  refine ⟨⟨.start list, column⟩, if_pos ?_, fun k => ?_⟩
  · change column < Indexed.arity list
    rwa [h.arity_eq]
  · rw [ColumnCursor.nextBy_eq, ColumnCursor.next]
    simp only [h.yields.runs k, ← Cursor.forwardBy_succ, ok_bind]
    by_cases hk : k < rows.length
    · have hrow : column < rows[k].length := by
        rwa [h.uniform _ (List.getElem_mem hk)]
      rw [PositionCursor.forwardBy_start list (by rwa [h.length_eq])]
      change (if decide (k < rows.length) = true then
        some <$> Indexed.member list column k else _) = _
      rw [if_pos (decide_eq_true hk), h.member_eq k column hk hrow, List.getElem?_eq_getElem hk]
      simp [List.getElem?_eq_getElem hrow]
    · simp [hk, pure, Except.pure]

end Shows

end Indexed

end CubeCalc
