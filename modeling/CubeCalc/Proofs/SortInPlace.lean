import CubeCalc.Proofs.RunSort
/-!
# Sorts in place where no comparison fails

A sort in place makes other comparisons than a sort aside, and so ends at other rows where one of
them fails. Where none does the two agree. Many rows are parted at pivots, which are rows
themselves, so that what comes before a pivot is sorted apart from what does not, and there is only
one list that sorts of either kind can come to.
-/

namespace CubeCalc

open Outcome Attempt

namespace RowComparison

variable {compare : RowComparison} {order : Tuple → Tuple → Ordering} {pivot : Tuple}
  {rows : List Tuple} {floor? : Option Tuple} {index : Nat}

/-! ### Choosing a pivot -/

theorem exists_median_eq (h : Decides compare order rows) {i j k : Nat} (hi : i < rows.length)
    (hj : j < rows.length) (hk : k < rows.length) :
    ∃ middle < rows.length, compare.median rows.toArray i j k = .ok middle := by
  have hless : ∀ {i j : Nat}, i < rows.length → j < rows.length →
      ∃ less, compare.isLess (rows.toArray.getD i []) (rows.toArray.getD j []) = .ok less := by
    intro i j hi hj
    refine ⟨_, h.isLess_eq ?_ ?_⟩
    · simp [hi]
    · simp [hj]
  obtain ⟨first, hfirst⟩ := hless hi hj
  obtain ⟨second, hsecond⟩ := hless hi hk
  obtain ⟨third, hthird⟩ := hless hj hk
  rw [median]
  dsimp only
  rw [hfirst, Outcome.ok_bind, hsecond, Outcome.ok_bind]
  split
  · rw [hthird, Outcome.ok_bind]
    split
    · exact ⟨j, hj, rfl⟩
    · exact ⟨k, hk, rfl⟩
  · exact ⟨i, hi, rfl⟩

/-- The stretches stay within the rows, and there is a row in each of them. -/
theorem exists_stretchMedian_eq (h : Decides compare order rows) {length i j k : Nat}
    (hlength : 0 < length) (hi : i + length ≤ rows.length) (hj : j + length ≤ rows.length)
    (hk : k + length ≤ rows.length) :
    ∃ middle < rows.length, compare.stretchMedian rows.toArray length i j k = .ok middle := by
  induction length using Nat.strong_induction_on generalizing i j k with
  | _ length ih =>
    have hstretch : 8 ≤ length → ∀ start, start + length ≤ rows.length → ∃ middle < rows.length,
        compare.stretchMedian rows.toArray (length / 8) start (start + length / 8 * 4)
          (start + length / 8 * 7) = .ok middle := by
      intro hlong start hstart
      exact ih (length / 8) (by omega) (by omega) (by omega) (by omega) (by omega)
    rw [stretchMedian]
    split
    · next hlong =>
      obtain ⟨first, hi', hfirst⟩ := hstretch hlong i hi
      obtain ⟨second, hj', hsecond⟩ := hstretch hlong j hj
      obtain ⟨third, hk', hthird⟩ := hstretch hlong k hk
      dsimp only
      rw [hfirst, Outcome.ok_bind, hsecond, Outcome.ok_bind, hthird, Outcome.ok_bind]
      exact exists_median_eq h hi' hj' hk'
    · exact exists_median_eq h (by omega) (by omega) (by omega)

theorem exists_choosePivot_eq (h : Decides compare order rows) (hmany : 8 ≤ rows.length) :
    ∃ index < rows.length, compare.choosePivot rows = .ok index :=
  exists_stretchMedian_eq h (by omega) (by omega) (by omega) (by omega)

/-! ### Parting at a pivot -/

/-- The pivot is not asked, but goes where it would. -/
theorem part_eq {goesLeft : Tuple → Outcome Bool} {p : Tuple → Bool}
    (hpivot : rows[index]? = some pivot) (hgoes : ∀ row ∈ rows, goesLeft row = .ok (p row)) :
    part goesLeft index (p pivot) rows = .ok (rows.filter p, rows.filter fun row => !p row) := by
  have hmap : rows.zipIdx.map (fun entry => (entry.1, p entry.1)) =
      rows.map fun row => (row, p row) := by
    conv_rhs => rw [← List.zipIdx_map_fst 0 rows, List.map_map]
    rfl
  rw [part, mapM_eq_ok (g := fun entry => (entry.1, p entry.1)) ?_, Outcome.ok_bind, hmap,
    List.partition_eq_filter_filter]
  · simp only [List.filter_map, List.map_map, Function.comp_def, List.map_id']
    rfl
  · rintro ⟨row, i⟩ hentry
    have hrow : rows[i]? = some row := by simpa [List.mem_zipIdx_iff_getElem?] using hentry
    dsimp only
    split
    · next hi =>
      rw [hi, hpivot, Option.some.injEq] at hrow
      rw [hrow]
      rfl
    · rw [hgoes row (List.mem_of_getElem? hrow)]
      rfl

/-- The floor is one of the rows that were there before, and none of them is less. -/
def IsFloor (compare : RowComparison) (order : Tuple → Tuple → Ordering) (floor? : Option Tuple)
    (rows : List Tuple) : Prop :=
  ∀ floor, floor? = some floor → Decides compare order (floor :: rows) ∧
    ∀ row ∈ rows, (order floor row).isLE

theorem isFloor_none (compare : RowComparison) (rows : List Tuple) :
    IsFloor compare order none rows := fun floor hfloor => by cases hfloor

theorem IsFloor.filter (h : IsFloor compare order floor? rows) (p : Tuple → Bool) :
    IsFloor compare order floor? (rows.filter p) := by
  intro floor hfloor
  obtain ⟨hdecides, hle⟩ := h floor hfloor
  refine ⟨hdecides.mono ?_, fun row hrow => hle row (List.mem_of_mem_filter hrow)⟩
  rw [List.forall_mem_cons]
  refine ⟨List.mem_cons_self, fun row hrow => ?_⟩
  exact List.mem_cons_of_mem floor (List.mem_of_mem_filter hrow)

variable [Std.TransCmp order]

/-- A pivot is a floor for the rows that are not less. -/
theorem isFloor_pivot (h : Decides compare order rows) (hpivot : pivot ∈ rows) :
    IsFloor compare order (some pivot) (rows.filter fun row => !(order row pivot == .lt)) := by
  intro floor hfloor
  obtain rfl := Option.some.inj hfloor
  refine ⟨h.mono ?_, fun row hrow => ?_⟩
  · rw [List.forall_mem_cons]
    exact ⟨hpivot, fun row => List.mem_of_mem_filter⟩
  · rw [List.mem_filter, Bool.not_eq_true', beq_lt_eq_false_iff] at hrow
    exact hrow.2

theorem partLess_eq (h : Decides compare order rows) (hpivot : rows[index]? = some pivot)
    (hfloor : IsFloor compare order floor? rows) :
    compare.partLess floor? index pivot rows =
      .ok (rows.filter fun row => order row pivot == .lt,
        rows.filter fun row => !(order row pivot == .lt)) := by
  have hmem : pivot ∈ rows := List.mem_of_getElem? hpivot
  have hpart := part_eq hpivot fun row hrow => h.isLess_eq hrow hmem
  rw [beq_lt_eq_false_iff.mpr (isLE_self pivot)] at hpart
  cases floor? with
  | none => exact hpart
  | some floor =>
    obtain ⟨hdecides, hle⟩ := hfloor floor rfl
    have hatFloor : compare.isAtFloor pivot (some floor) = .ok !(order floor pivot == .lt) := by
      rw [isAtFloor, hdecides.isLess_eq List.mem_cons_self (List.mem_cons_of_mem floor hmem)]
      rfl
    rw [partLess, hatFloor, Outcome.ok_bind]
    split
    · next hnone =>
      rw [Bool.not_eq_true', beq_lt_eq_false_iff] at hnone
      have hnotLess : ∀ row ∈ rows, (order row pivot == .lt) = false := fun row hrow =>
        beq_lt_eq_false_iff.mpr (Std.TransCmp.isLE_trans hnone (hle row hrow))
      have hless : rows.filter (fun row => order row pivot == .lt) = [] := by
        rw [List.filter_eq_nil_iff]
        intro row hrow
        rw [hnotLess row hrow]
        decide
      have hothers : rows.filter (fun row => !(order row pivot == .lt)) = rows := by
        rw [List.filter_eq_self]
        intro row hrow
        rw [hnotLess row hrow]
        rfl
      rw [hless, hothers]
      rfl
    · exact hpart

theorem partEqual_eq (h : Decides compare order rows) (hpivot : rows[index]? = some pivot) :
    compare.partEqual index pivot rows =
      .ok (rows.filter fun row => !(order pivot row == .lt),
        rows.filter fun row => !!(order pivot row == .lt)) := by
  have hmem : pivot ∈ rows := List.mem_of_getElem? hpivot
  have hgoes : ∀ row ∈ rows,
      Bool.not <$> compare.isLess pivot row = .ok !(order pivot row == .lt) := by
    intro row hrow
    rw [h.isLess_eq hmem hrow]
    rfl
  have hpart := part_eq hpivot hgoes
  rwa [beq_lt_eq_false_iff.mpr (isLE_self pivot)] at hpart

/-- Rows less than a pivot come before all others. -/
theorem arranged_less_append (pivot : Tuple) (rows : List Tuple) :
    arranged order (rows.filter fun row => order row pivot == .lt) ++
      arranged order (rows.filter fun row => !(order row pivot == .lt)) = arranged order rows := by
  refine arranged_filter_append fun a _ b _ ha hb => ?_
  rw [beq_iff_eq] at ha
  rw [beq_lt_eq_false_iff] at hb
  exact Std.TransCmp.lt_of_lt_of_isLE ha hb

/-- Rows greater than a pivot come after all others. -/
theorem arranged_append_greater (pivot : Tuple) (rows : List Tuple) :
    arranged order (rows.filter fun row => !(order pivot row == .lt)) ++
      arranged order (rows.filter fun row => !!(order pivot row == .lt)) = arranged order rows := by
  refine arranged_filter_append fun a _ b _ ha hb => ?_
  rw [Bool.not_eq_true', beq_lt_eq_false_iff] at ha
  rw [Bool.not_eq_false', beq_iff_eq] at hb
  exact Std.TransCmp.lt_of_isLE_of_lt ha hb

theorem sortParts_eq (h : Decides compare order rows) (limit : Nat)
    (hfloor : IsFloor compare order floor? rows) :
    compare.sortParts limit floor? rows = .ok (arranged order rows) := by
  induction limit generalizing floor? rows with
  | zero =>
    rw [sortParts]
    split
    · exact sortHalves_eq h
    · exact sortRuns_eq (fun hblocks => by cases hblocks) h
  | succ limit ih =>
    rw [sortParts]
    split
    · exact sortHalves_eq h
    · next hmany =>
      rw [blockLength] at hmany
      obtain ⟨index, hindex, hchoose⟩ := exists_choosePivot_eq h (by omega)
      have hpivot : rows[index]? = some (rows.getD index []) := by
        rw [List.getD_eq_getElem?_getD, List.getElem?_eq_getElem hindex]
        rfl
      rw [hchoose, onlyRead_ok_bind]
      dsimp only
      generalize rows.getD index [] = pivot at hpivot ⊢
      have hmem : pivot ∈ rows := List.mem_of_getElem? hpivot
      have hpart : ∀ p : Tuple → Bool, Decides compare order (rows.filter p) :=
        fun p => h.mono fun row => List.mem_of_mem_filter
      rw [partLess_eq h hpivot hfloor, onlyRead_ok_bind]
      dsimp only
      split
      · next hnone =>
        -- No row is less, so that those which are not greater are level.
        rw [List.isEmpty_iff, List.filter_eq_nil_iff] at hnone
        have hlevel : Ascends order (rows.filter fun row => !(order pivot row == .lt)) := by
          refine List.pairwise_of_forall_mem_list fun a ha b hb => ?_
          rw [List.mem_filter, Bool.not_eq_true', beq_lt_eq_false_iff] at ha
          have hle : (order pivot b).isLE := by
            rw [← beq_lt_eq_false_iff, ← Bool.not_eq_true]
            exact hnone b (List.mem_of_mem_filter hb)
          exact Std.TransCmp.isLE_trans ha.2 hle
        rw [partEqual_eq h hpivot, onlyRead_ok_bind]
        dsimp only
        rw [ih (hpart _) (isFloor_none compare _), between_ok_bind,
          ← hlevel.arranged_eq, arranged_append_greater]
        rfl
      · rw [ih (hpart _) (isFloor_pivot h hmem), between_ok_bind,
          ih (hpart _) (hfloor.filter _), between_ok_bind, arranged_less_append]
        rfl

theorem sortInPlace_eq (h : Decides compare order rows) :
    compare.sortInPlace rows = .ok (arranged order rows) := by
  rw [sortInPlace]
  split
  · exact sinkAll_eq h .nil
  · refine sortRuns_eq (fun _ rows h => ?_) h
    exact sortParts_eq h _ (isFloor_none compare rows)

/-- Where no comparison of two rows fails, the sort in place comes to what the sort aside does. -/
theorem sort_eq_leftBySort (h : Decides compare order rows) :
    compare.sort rows = .ok (compare.leftBySort rows) := by
  rw [leftBySort, sortInPlace_eq h, sort_eq h]

end RowComparison

end CubeCalc
