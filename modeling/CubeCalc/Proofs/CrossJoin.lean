import CubeCalc.Proofs.Cursor
import CubeCalc.Proofs.Override
import CubeCalc.Proofs.Selection
/-!
# Cross joins

A cross join yields every left row followed by every right row, the left one changing last. While
empty cells are kept, the limit is held against the number of pairs, and the saturated product is
good enough for that. Otherwise the pairs are looked at one by one, and only those that are kept
count.
-/

namespace CubeCalc

open Outcome

/-! ### Pairs of rows -/

/-- Every left row followed by every right row. -/
def pairRows (left right : List Tuple) : List Tuple :=
  left.flatMap fun first => right.map fun second => first ++ second

theorem length_pairRows (left right : List Tuple) :
    (pairRows left right).length = left.length * right.length := by
  simp [pairRows, List.length_flatMap]

/-- The number of a pair has the positions of its rows as digits. -/
theorem getElem?_pairRows {left right : List Tuple} {i j : Nat} (hi : i < left.length)
    (hj : j < right.length) :
    (pairRows left right)[i * right.length + j]? = some (left[i] ++ right[j]) := by
  induction left generalizing i with
  | nil => cases hi
  | cons first rest ih =>
    rw [pairRows, List.flatMap_cons]
    cases i with
    | zero =>
      rw [List.getElem?_append_left (by simpa using hj)]
      simp [hj]
    | succ i =>
      have hle : right.length ≤ (i + 1) * right.length + j := by
        rw [Nat.succ_mul]
        omega
      have hrest : (i + 1) * right.length + j - right.length = i * right.length + j := by
        rw [Nat.succ_mul]
        omega
      rw [List.getElem?_append_right (by simpa using hle), List.length_map, hrest]
      exact ih (Nat.lt_of_succ_lt_succ hi)

theorem mem_pairRows {left right : List Tuple} {row : Tuple} :
    row ∈ pairRows left right ↔ ∃ first ∈ left, ∃ second ∈ right, first ++ second = row := by
  simp [pairRows, List.mem_flatMap]

variable {l r : TupleList} {p q : PlainList}

/-- Lists read all columns of their rows, so that the product of two lists is that of their rows. -/
theorem productRows_eq (hl : l.Represents p) (hr : r.Represents q) :
    productRows l r = pairRows p.rows q.rows := by
  rw [productRows, pairRows, hl.holds.rows_eq, hr.holds.rows_eq]
  apply List.flatMap_congr
  intro first hfirst
  apply List.map_congr_left
  intro second hsecond
  rw [hl.arity_eq, hr.arity_eq, ← hl.row_length_eq hfirst, ← hr.row_length_eq hsecond,
    List.take_length, List.take_length]

theorem length_of_mem_pairRows (hl : l.Represents p) (hr : r.Represents q) {row : Tuple}
    (hrow : row ∈ pairRows p.rows q.rows) : row.length = p.arity + q.arity := by
  obtain ⟨first, hfirst, second, hsecond, rfl⟩ := mem_pairRows.mp hrow
  rw [List.length_append, hl.row_length_eq hfirst, hr.row_length_eq hsecond]

/-! ### Walking the pairs -/

namespace ProductCursor

/-- The cursor on a pair reads the left row, and the right row behind it. -/
theorem current_eq (hl : l.Represents p) (hp : p.IsCountable) (hr : r.Represents q)
    (hq : q.IsCountable) {i j : Nat} (hi : i < p.rows.length) (hj : j < q.rows.length) :
    Cursor.current (ProductCursor.mk l r i j true) = .ok (p.rows[i] ++ q.rows[j]) := by
  have hfirst : p.rows[i].length = l.arity := (hl.row_length_eq (List.getElem_mem hi)).trans
    hl.arity_eq.symm
  have hsecond : q.rows[j].length = r.arity := (hr.row_length_eq (List.getElem_mem hj)).trans
    hr.arity_eq.symm
  have hlength : (p.rows[i] ++ q.rows[j]).length = l.arity + r.arity := by
    rw [List.length_append, hfirst, hsecond]
  change (List.range (l.arity + r.arity)).mapM (member _) = _
  rw [← hlength]
  apply mapM_range_eq
  intro column hcolumn
  rw [member]
  by_cases hleft : column < l.arity
  · rw [if_pos hleft, List.getElem_append_left (hfirst ▸ hleft)]
    exact hl.member_eq hp hi (hfirst ▸ hleft)
  · have hright : column - l.arity < q.rows[j].length := by omega
    rw [if_neg hleft, List.getElem_append_right (by omega)]
    simp only [hfirst]
    exact hr.member_eq hq hj hright

/-- The cursor yields all pairs of rows. -/
theorem yields_start (hl : l.Represents p) (hp : p.IsCountable) (hr : r.Represents q)
    (hq : q.IsCountable) : Cursor.Yields (start l r) (pairRows p.rows q.rows) where
  runs := by
    rw [length_pairRows, ← hl.length_eq, ← hr.length_eq]
    exact runs_start l r
  current_eq k hk := by
    have hk' : k < l.length * r.length := by
      rwa [length_pairRows, ← hl.length_eq, ← hr.length_eq] at hk
    have hright : 0 < r.length := by
      rcases Nat.eq_zero_or_pos r.length with hempty | hpos
      · simp [hempty] at hk'
      · exact hpos
    have hi : k / r.length < p.rows.length := by
      rw [← hl.length_eq]
      exact (Nat.div_lt_iff_lt_mul hright).mpr hk'
    have hj : k % r.length < q.rows.length := by
      rw [← hr.length_eq]
      exact Nat.mod_lt k hright
    have hpair : (pairRows p.rows q.rows)[k]? =
        some (p.rows[k / r.length] ++ q.rows[k % r.length]) := by
      have hdigits := getElem?_pairRows hi hj
      rwa [← hr.length_eq, Nat.div_add_mod'] at hdigits
    rw [forwardBy_start (Nat.zero_lt_of_lt hk'), Nat.min_eq_left (Nat.le_of_lt hk'),
      (List.getElem_eq_iff hk).mpr hpair]
    exact current_eq hl hp hr hq hi hj

/-- The cursor comes by each pair of positions exactly once. -/
theorem existsUnique_pair {i j : Nat} (hi : i < l.length) (hj : j < r.length) :
    ∃! k, k < l.length * r.length ∧
      (Cursor.forwardBy (start l r) (k + 1)).leftIndex = i ∧
      (Cursor.forwardBy (start l r) (k + 1)).rightIndex = j := by
  have hright : 0 < r.length := Nat.zero_lt_of_lt hj
  have hpairs : 0 < l.length * r.length := Nat.mul_pos (Nat.zero_lt_of_lt hi) hright
  -- Before the end, the step that is taken is the number of the pair.
  have hdigits : ∀ k, k < l.length * r.length →
      ((Cursor.forwardBy (start l r) (k + 1)).leftIndex = i ∧
        (Cursor.forwardBy (start l r) (k + 1)).rightIndex = j ↔ j + r.length * i = k) := by
    intro k hk
    rw [forwardBy_start hpairs, Nat.min_eq_left (Nat.le_of_lt hk)]
    change k / r.length = i ∧ k % r.length = j ↔ _
    rw [Nat.div_mod_unique hright]
    simp [hj]
  have hlt : j + r.length * i < l.length * r.length := by
    have hnext : r.length * (i + 1) ≤ r.length * l.length := Nat.mul_le_mul_left _ hi
    rw [Nat.mul_succ, Nat.mul_comm r.length l.length] at hnext
    omega
  refine ⟨j + r.length * i, ⟨hlt, (hdigits _ hlt).mpr rfl⟩, ?_⟩
  rintro k ⟨hk, hpair⟩
  exact ((hdigits k hk).mp hpair).symm

end ProductCursor

/-! ### Holding the product against a limit -/

/-- No limit is so great that a saturated product would hide that it is exceeded. -/
theorem check_productLength {limit : Int} (hlimit : limit ≤ Int64.maxValue.toInt)
    (left right : TupleList) :
    (RowLimit.ofInt limit).check (productLength left right) =
      if 0 < limit ∧ limit < (left.length * right.length : Nat) then
        fail (.limitExceeded (productLength left right) limit.toNat)
      else .ok () := by
  have hmax : Int64.maxValue.toInt = 9223372036854775807 := rfl
  have hword : wordBound = 18446744073709551616 := rfl
  by_cases hpos : 0 < limit
  · have hexact : productLength left right > limit.toNat ↔
        limit < (left.length * right.length : Nat) := by
      rw [productLength, saturated, hword]
      omega
    simp [RowLimit.check, RowLimit.ofInt, Int.not_le.mpr hpos, hpos, hexact]
  · simp [RowLimit.check, RowLimit.ofInt, Int.not_lt.mp hpos, hpos, RowLimit.unbounded]

/-! ### Cells of rows -/

/-- The cell in the context overridden by a row has a value. -/
def Context.fills (ctx : Context) (row : Tuple) : Bool :=
  !(Value.ofCell (ctx.override row).cell).isNull

theorem Context.valueAt_eq {ctx : Context} {row : Tuple} (hrow : ∀ m ∈ row, ctx.Reaches m) :
    ctx.valueAt row = .ok (.ofCell (ctx.override row).cell) := by
  rw [valueAt, moveAll_eq_override hrow]
  rfl

/-- A non-empty product selects the pairs that fill a cell. -/
theorem nonEmptyProduct_selects (hl : l.Represents p) (hr : r.Represents q) {ctx : Context}
    {limit : RowLimit} (hreaches : ∀ row ∈ pairRows p.rows q.rows, ∀ m ∈ row, ctx.Reaches m)
    (hcount : limit.Counts ((pairRows p.rows q.rows).filter ctx.fills).length
      (p.arity + q.arity)) :
    Selects (p.arity + q.arity) limit (fun row => .ok (ctx.fills row)) (pairRows p.rows q.rows)
      (nonEmptyProduct ctx l r limit) := by
  have harity : l.arity + r.arity = p.arity + q.arity := by rw [hl.arity_eq, hr.arity_eq]
  rw [nonEmptyProduct, productRows_eq hl hr, harity]
  apply selects_foldlM (fun row hrow => length_of_mem_pairRows hl hr hrow) _ hcount
  intro kept row hrow
  rw [Context.valueAt_eq (hreaches row hrow), Outcome.ok_bind, Outcome.ok_bind, Context.fills]
  cases (Value.ofCell (ctx.override row).cell).isNull <;> rfl

/-! ### Evaluating -/

namespace Calc

variable {left right : Calc} {ctx : Context}

theorem evaluate_crossJoin_eq (hleft : left.evaluate ctx = .ok (.list l))
    (hright : right.evaluate ctx = .ok (.list r)) (limit : RowLimit) :
    evaluate ctx (.crossJoin left right limit) =
      if ctx.nonEmpty then
        (nonEmptyProduct ctx l r limit).map fun kept => .iterable (.list kept.fixed)
      else (limit.check (productLength l r)).map fun _ => .iterable (.product l r) := by
  rw [evaluate]
  simp only [hleft, hright, Value.toList, Outcome.ok_bind]
  cases ctx.nonEmpty with
  | true => cases nonEmptyProduct ctx l r limit <;> rfl
  | false => cases limit.check (productLength l r) <;> rfl

/-- A cross join is the ordered product of its lists. Its cursor yields every pair of rows, comes by
each pair of positions exactly once, and does not move on behind the last. While empty cells are
kept, it exceeds a limit exactly if there are more pairs than the limit says. Otherwise it comes to
the pairs that fill a cell, and exceeds a limit exactly if there are more of these. -/
theorem crossJoin_eq_product (hl : l.Represents p) (hr : r.Represents q) :
    (p.IsCountable → q.IsCountable →
      Cursor.Yields (ProductCursor.start l r) (pairRows p.rows q.rows)) ∧
    (pairRows p.rows q.rows).length = p.rows.length * q.rows.length ∧
    (∀ i < p.rows.length, ∀ j < q.rows.length, ∃! k, k < p.rows.length * q.rows.length ∧
      (Cursor.forwardBy (ProductCursor.start l r) (k + 1)).leftIndex = i ∧
      (Cursor.forwardBy (ProductCursor.start l r) (k + 1)).rightIndex = j) ∧
    ∀ (left right : Calc) (ctx : Context), left.evaluate ctx = .ok (.list l) →
      right.evaluate ctx = .ok (.list r) →
      (ctx.nonEmpty = false → ∀ limit : Int, limit ≤ Int64.maxValue.toInt →
        evaluate ctx (.crossJoin left right (.ofInt limit)) =
          if 0 < limit ∧ limit < (p.rows.length * q.rows.length : Nat) then
            fail (.limitExceeded (productLength l r) limit.toNat)
          else .ok (.iterable (.product l r))) ∧
      (ctx.nonEmpty = true →
        (∀ row ∈ pairRows p.rows q.rows, ∀ m ∈ row, ctx.Reaches m) → ∀ limit : RowLimit,
        limit.Counts ((pairRows p.rows q.rows).filter ctx.fills).length (p.arity + q.arity) →
          (limit.Allows ((pairRows p.rows q.rows).filter ctx.fills).length ∧
            ∃ kept, evaluate ctx (.crossJoin left right limit) = .ok (.iterable (.list kept)) ∧
              kept.rows = (pairRows p.rows q.rows).filter ctx.fills) ∨
          ∃ most, limit.rows? = some most ∧
            most < ((pairRows p.rows q.rows).filter ctx.fills).length ∧
            evaluate ctx (.crossJoin left right limit) =
              fail (.limitExceeded (most + 1) most)) := by
  refine ⟨?_, length_pairRows _ _, ?_, fun left right ctx hleft hright => ⟨?_, ?_⟩⟩
  · intro hp hq
    exact ProductCursor.yields_start hl hp hr hq
  · intro i hi j hj
    rw [← hl.length_eq, ← hr.length_eq]
    rw [← hl.length_eq] at hi
    rw [← hr.length_eq] at hj
    exact ProductCursor.existsUnique_pair hi hj
  · intro hempty limit hlimit
    rw [evaluate_crossJoin_eq hleft hright, hempty, if_neg Bool.false_ne_true,
      check_productLength hlimit, hl.length_eq, hr.length_eq]
    split <;> rfl
  · intro hempty hreaches limit hcount
    rw [evaluate_crossJoin_eq hleft hright, hempty, if_pos rfl]
    have hselects := nonEmptyProduct_selects hl hr hreaches hcount
    rcases hselects.cases_of_tests fun row _ => ⟨ctx.fills row, rfl⟩ with
      ⟨hallows, kept, hkept, hrows⟩ | ⟨most, hmost, hlt, hfail⟩
    · left
      refine ⟨hallows, kept.fixed, ?_, hrows.holds.rows_eq⟩
      rw [hkept, Outcome.map_ok]
    · right
      refine ⟨most, hmost, hlt, ?_⟩
      rw [hfail, Outcome.map_fail]

end Calc

namespace Sales

def timesCalc : Calc := .hierarchyMembers time .unbounded

def townsCalc : Calc := .hierarchyMembers town .unbounded

/-- Of six pairs of a time and a town, two have something sold. -/
theorem evaluate_soldPairs :
    Calc.evaluate sold (.crossJoin timesCalc townsCalc (.ofInt 5)) =
      fail (.limitExceeded 6 5) ∧
    ∃ kept, Calc.evaluate (sold.setNonEmpty true) (.crossJoin timesCalc townsCalc .unbounded) =
      .ok (.iterable (.list kept)) ∧
        kept.rows = [[.all "Time" "All Times", oslo], [firstYear, oslo]] := by
  have htimes := TupleList.Represents.of_unary time.members.toArray false .unbounded
  have htowns := TupleList.Represents.of_unary town.members.toArray false .unbounded
  obtain ⟨-, -, -, heval⟩ := Calc.crossJoin_eq_product htimes htowns
  constructor
  · exact (heval timesCalc townsCalc sold rfl rfl).1 rfl 5 (by decide)
  · have hall := (heval timesCalc townsCalc (sold.setNonEmpty true) rfl rfl).2 rfl
    have hreaches : ∀ row ∈ pairRows (time.members.map fun m => [m])
        (town.members.map fun m => [m]), ∀ m ∈ row, (sold.setNonEmpty true).Reaches m := by
      decide
    rcases hall hreaches .unbounded (RowLimit.counts_unbounded _ _) with
      ⟨-, kept, heq, hrows⟩ | ⟨most, hmost, -⟩
    · exact ⟨kept, heq, hrows⟩
    · cases hmost

end Sales

end CubeCalc
