import CubeCalc.Proofs.RowLimit
import CubeCalc.Proofs.Storage
import CubeCalc.Tuple.Source
/-!
# Lists of tuples and their rows

A list holds some rows if its storage stands for them. Every way of making a list makes one that
holds rows of its arity, and every change of a list is the change of its rows, unless the list
refuses it.
-/

namespace CubeCalc

namespace TupleList

open Outcome

/-- The list holds some rows, all of its arity. -/
def Holds (l : TupleList) (rows : List Tuple) : Prop := l.storage.Stores rows

variable {l : TupleList} {rows : List Tuple} {row : Tuple} {limit : RowLimit} {arity : Nat}

namespace Holds

theorem rows_eq (hl : l.Holds rows) : l.rows = rows := Storage.Stores.rows_eq hl

theorem length_eq (hl : l.Holds rows) : l.length = rows.length := Storage.Stores.length_eq hl

theorem uniform (hl : l.Holds rows) : ∀ row ∈ rows, row.length = l.arity :=
  Storage.Stores.uniform hl

end Holds

/-! ### Making lists -/

theorem new_holds (arity : Nat) (limit : RowLimit) :
    (new arity limit).Holds [] ∧ (new arity limit).arity = arity := by
  match arity with
  | 0 => exact ⟨.delegating rfl (by simp), rfl⟩
  | 1 => exact ⟨.unary rfl, rfl⟩
  | arity + 2 => exact ⟨.packed ⟨Nat.succ_pos _, rfl, by simp⟩, rfl⟩

theorem saturated_le (n : Nat) : saturated n ≤ n := Nat.min_le_left _ _

/-- Packed rows need columns, and no more slots than there are. -/
theorem packed_withCapacity_meets (arity count : Nat) (limit : RowLimit) :
    Meets (fun p : Packed => p.Stores [] ∧ p.arity = arity)
      (fun failure => failure = .violation .packedWithoutColumns ∧ arity = 0 ∨
        failure = .violation .capacityOverflow ∧ Packed.slotBound ≤ count * arity)
      (Packed.withCapacity arity count limit) := by
  rw [Packed.withCapacity]
  split
  · next harity => exact .inl ⟨rfl, harity⟩
  · next harity =>
    simp only
    split
    · exact ⟨⟨Nat.pos_of_ne_zero harity, rfl, by simp⟩, rfl⟩
    · next hslots =>
      refine .inr ⟨rfl, Nat.le_trans (Nat.le_of_not_lt hslots) ?_⟩
      refine Nat.le_trans ?_ (saturated_le (count * arity))
      cases limit.ceiling? arity with
      | none => exact Nat.le_refl _
      | some most => exact Nat.min_le_left _ _

/-- Reserving room makes an empty list, unless there is not as much room as is asked for. -/
theorem withCapacity_meets (arity count : Nat) (limit : RowLimit) :
    Meets (fun l : TupleList => l.Holds [] ∧ l.arity = arity ∧ l.isMutable = true ∧ l.limit = limit)
      (fun failure => failure = .violation .capacityOverflow ∧
        Packed.slotBound ≤ count * max arity 1) (withCapacity arity count limit) := by
  rw [withCapacity]
  match arity with
  | 0 => exact ⟨.delegating rfl (by simp), rfl, rfl, rfl⟩
  | 1 =>
    rw [Storage.withCapacity]
    split
    · exact ⟨.unary rfl, rfl, rfl, rfl⟩
    · next hslots =>
      refine ⟨rfl, Nat.le_trans (Nat.le_of_not_lt hslots) ?_⟩
      rw [Nat.max_self, Nat.mul_one]
      exact limit.clamp_le count
  | arity + 2 =>
    have hpacked := packed_withCapacity_meets (arity + 2) count limit
    have hmax : max (arity + 2) 1 = arity + 2 := Nat.max_eq_left (by omega)
    simp only [Storage.withCapacity, hmax]
    cases hcase : Packed.withCapacity (arity + 2) count limit with
    | error failure =>
      rw [hcase] at hpacked
      rcases hpacked with ⟨-, hzero⟩ | hoverflow
      · omega
      · exact hoverflow
    | ok p =>
      rw [hcase] at hpacked
      exact ⟨.packed hpacked.1, hpacked.2, rfl, rfl⟩

theorem ofMembers_eq (members : List Member) (limit : RowLimit) :
    ∃ l : TupleList, l.Holds (members.map fun m => [m]) ∧ l.arity = 1 ∧ l.isMutable = true ∧
      l.limit = limit ∧ ofMembers members limit = (limit.check members.length >>= fun _ => .ok l) :=
  ⟨⟨.unary members.toArray, true, limit⟩, .unary (by simp), rfl, rfl, rfl, rfl⟩

/-! ### Adding rows -/

/-- A mutable list takes a row of its arity over, if there is room for it. -/
theorem push_eq (hl : l.Holds rows) (hmutable : l.isMutable = true) (hrow : row.length = l.arity) :
    ∃ storage : Storage, storage.Stores (rows ++ [row]) ∧ storage.arity = l.arity ∧
      l.push row = (l.storage.room l.limit >>= fun _ => .ok { l with storage }) := by
  obtain ⟨storage, hstores, harity, hpush⟩ := Storage.Stores.push_eq hl hrow l.limit
  refine ⟨storage, hstores, harity, ?_⟩
  simp only [push, checkMutable, checkArity, hmutable, hrow, hpush, if_true, Outcome.ok_bind,
    bind_assoc]
  rfl

/-- A row of a sequence is taken over in the same way. -/
theorem addRow_eq (l : TupleList) (row : Tuple) : l.addRow row.length (.ok row) = l.push row := rfl

end TupleList

/-! ### Rows of the arity that their source declares -/

theorem checkLength_eq_ok_iff {arity : Nat} {row : Tuple} :
    checkLength arity row = .ok () ↔ row.length = arity := by
  rw [checkLength]
  split
  · next hrow => exact ⟨fun _ => hrow, fun _ => rfl⟩
  · next hrow =>
    constructor
    · intro hcheck
      cases hcheck
    · intro hlength
      exact absurd hlength hrow

namespace TupleSource

variable {source : TupleSource} {row : Tuple}

theorem reach_eq (hrow : row.length = source.arity) : source.reach row = .ok () := by
  cases source with
  | rows => exact if_pos hrow
  | list | product => rfl

theorem wholeRow_eq (hrow : row.length = source.arity) : source.wholeRow row = .ok row := by
  cases source with
  | rows => rfl
  | list | product =>
    simp only [wholeRow, readColumns]
    rw [if_pos (Nat.le_of_eq hrow.symm), ← hrow, List.take_length]

theorem addTo_eq (hrow : row.length = source.arity) (l : TupleList) :
    source.addTo l row = l.push row := by
  rw [addTo, reach_eq hrow, wholeRow_eq hrow, ← hrow, TupleList.addRow_eq]
  rfl

/-- To copy such a source is to push one row after the other. -/
theorem materialize_eq_foldlM (hrows : ∀ row ∈ source.tuples, row.length = source.arity)
    (limit : RowLimit) :
    source.materialize limit =
      source.tuples.foldlM TupleList.push (TupleList.new source.arity limit) := by
  apply Outcome.foldlM_congr
  intro row hrow l
  exact addTo_eq (hrows row hrow) l

end TupleSource

end CubeCalc
