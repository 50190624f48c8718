import CubeCalc.Proofs.Cube
import CubeCalc.Proofs.Cursor
/-!
# Looking ahead

A look-ahead answers for the cursor below it: whether a tuple remains, what the next one is, and
whether it can be moved onto it. In whatever order it is asked, it hands every tuple out once, and
moves the cursor below at most once for each tuple and once for the end. A cursor that would go on
after it has reported its end is never asked to.
-/

namespace CubeCalc

open Outcome

/-- The cursor stands on one row after the other and then reports its end. Its tuple is the row,
also when it is read column by column. What it does when it is moved once more is left open. -/
structure Cursor.Offers {κ : Type} [Cursor κ] (cursor : κ) (rows : List Tuple) : Prop where
  forward_eq : ∀ k ≤ rows.length, (forward (forwardBy cursor k)).1 = .ok (decide (k < rows.length))
  current_eq : ∀ i (hi : i < rows.length), current (forwardBy cursor (i + 1)) = .ok rows[i]
  columns_eq : ∀ i (hi : i < rows.length), columns (forwardBy cursor (i + 1)) = .ok rows[i]

variable {κ : Type} [Cursor κ] {cursor : κ} {rows : List Tuple}

/-- A cursor offers what it yields, if it stands on rows that are read column by column. -/
theorem Cursor.Yields.offers (hcursor : Yields cursor rows)
    (hcolumns : ∀ i < rows.length,
      columns (forwardBy cursor (i + 1)) = current (forwardBy cursor (i + 1))) :
    Offers cursor rows where
  forward_eq k _ := hcursor.runs k
  current_eq := hcursor.current_eq
  columns_eq i hi := (hcolumns i hi).trans (hcursor.current_eq i hi)

/-! ### Moves -/

inductive LookaheadMove where
  | hasNext
  | next
  /-- The tuple is read directly after the move. -/
  | forward
  deriving DecidableEq, Repr

namespace LookaheadMove

inductive Report where
  | remains (found : Outcome Bool)
  | took (row? : Outcome (Option Tuple))
  | moved (found : Outcome Bool) (current? : Option (Outcome Tuple))

/-- The tuples that have been handed out. -/
def Report.delivered : Report → List (Outcome Tuple)
  | .remains _ => []
  | .took (.ok row?) => (row?.map .ok).toList
  | .took (.error failure) => [.error failure]
  | .moved _ current? => current?.toList

def run (it : Lookahead κ) : LookaheadMove → Report × Lookahead κ
  | .hasNext => (.remains it.hasNext.1, it.hasNext.2)
  | .next => (.took it.next.1, it.next.2)
  | .forward =>
    let moved := it.forward
    let current? :=
      match moved.1 with
      | .ok true => some (Cursor.current moved.2)
      | _ => none
    (.moved moved.1 current?, moved.2)

/-- Whether the move asks for a tuple to be handed out. -/
def takes : LookaheadMove → Bool
  | .hasNext => false
  | .next | .forward => true

def takenBy (taken : Nat) (move : LookaheadMove) : Nat := if move.takes then taken + 1 else taken

/-- What a move reports when so many tuples have been asked for. -/
def expected (rows : List Tuple) (taken : Nat) : LookaheadMove → Report
  | .hasNext => .remains (.ok (decide (taken < rows.length)))
  | .next => .took (.ok rows[taken]?)
  | .forward => .moved (.ok (decide (taken < rows.length))) (rows[taken]?.map .ok)

def reports (it : Lookahead κ) : List LookaheadMove → List Report
  | [] => []
  | move :: rest => (move.run it).1 :: reports (move.run it).2 rest

def after (it : Lookahead κ) (moves : List LookaheadMove) : Lookahead κ :=
  moves.foldl (fun it move => (move.run it).2) it

end LookaheadMove

/-! ### Where a look-ahead stands -/

namespace Lookahead

variable {it : Lookahead κ} {taken : Nat}

/-- The cursor below is on the tuple that was handed out last, or on the next one, or has reported
its end. -/
inductive Stands (cursor : κ) (rows : List Tuple) (taken : Nat) : Lookahead κ → Prop where
  | unknown (hle : taken ≤ rows.length) :
    Stands cursor rows taken ⟨Cursor.forwardBy cursor taken, .unknown⟩
  | present (hlt : taken < rows.length) :
    Stands cursor rows taken ⟨Cursor.forwardBy cursor (taken + 1), .present⟩
  | exhausted (hle : rows.length ≤ taken) :
    Stands cursor rows taken ⟨Cursor.forwardBy cursor (rows.length + 1), .exhausted⟩

theorem stands_start (cursor : κ) (rows : List Tuple) : Stands cursor rows 0 (start cursor) :=
  .unknown (Nat.zero_le _)

namespace Stands

/-! While a tuple is left, each move finds it. -/

theorem hasNext_of_lt (hit : Stands cursor rows taken it) (hcursor : Cursor.Offers cursor rows)
    (hlt : taken < rows.length) :
    it.hasNext = (.ok true, ⟨Cursor.forwardBy cursor (taken + 1), .present⟩) := by
  cases hit with
  | unknown hle =>
    simp [hasNext, hcursor.forward_eq taken hle, hlt, Cursor.forwardBy_succ, Ahead.after]
  | present => rfl
  | exhausted hle => omega

theorem next_of_lt (hit : Stands cursor rows taken it) (hcursor : Cursor.Offers cursor rows)
    (hlt : taken < rows.length) :
    it.next = (.ok (some rows[taken]), ⟨Cursor.forwardBy cursor (taken + 1), .unknown⟩) := by
  unfold next
  rw [hit.hasNext_of_lt hcursor hlt]
  simp only [hcursor.current_eq taken hlt]
  rfl

theorem forward_of_lt (hit : Stands cursor rows taken it) (hcursor : Cursor.Offers cursor rows)
    (hlt : taken < rows.length) :
    it.forward = (.ok true, ⟨Cursor.forwardBy cursor (taken + 1), .unknown⟩) := by
  cases hit with
  | unknown hle =>
    simp [forward, hcursor.forward_eq taken hle, hlt, Cursor.forwardBy_succ, Ahead.after]
  | present => rfl
  | exhausted hle => omega

/-! Behind the last tuple, the first move hears of the end, and no move after that asks again. -/

theorem hasNext_of_le (hit : Stands cursor rows taken it) (hcursor : Cursor.Offers cursor rows)
    (hend : rows.length ≤ taken) :
    it.hasNext = (.ok false, ⟨Cursor.forwardBy cursor (rows.length + 1), .exhausted⟩) := by
  cases hit with
  | unknown hle =>
    obtain rfl : taken = rows.length := Nat.le_antisymm hle hend
    simp [hasNext, hcursor.forward_eq _ hle, Cursor.forwardBy_succ, Ahead.after]
  | present hlt => omega
  | exhausted => rfl

theorem next_of_le (hit : Stands cursor rows taken it) (hcursor : Cursor.Offers cursor rows)
    (hend : rows.length ≤ taken) :
    it.next = (.ok none, ⟨Cursor.forwardBy cursor (rows.length + 1), .exhausted⟩) := by
  unfold next
  rw [hit.hasNext_of_le hcursor hend]

theorem forward_of_le (hit : Stands cursor rows taken it) (hcursor : Cursor.Offers cursor rows)
    (hend : rows.length ≤ taken) :
    it.forward = (.ok false, ⟨Cursor.forwardBy cursor (rows.length + 1), .exhausted⟩) := by
  cases hit with
  | unknown hle =>
    obtain rfl : taken = rows.length := Nat.le_antisymm hle hend
    simp [forward, hcursor.forward_eq _ hle, Cursor.forwardBy_succ, Ahead.after]
  | present hlt => omega
  | exhausted => rfl

/-! ### Steps and runs -/

/-- A move reports what it has to, and the look-ahead stands where it should. -/
theorem run_eq (hit : Stands cursor rows taken it) (hcursor : Cursor.Offers cursor rows)
    (move : LookaheadMove) :
    (move.run it).1 = move.expected rows taken ∧
      Stands cursor rows (move.takenBy taken) (move.run it).2 := by
  by_cases hlt : taken < rows.length
  · have hrow : rows[taken]? = some rows[taken] := List.getElem?_eq_getElem hlt
    cases move with
    | hasNext =>
      simp only [LookaheadMove.run, LookaheadMove.expected, hit.hasNext_of_lt hcursor hlt, hlt,
        decide_true, true_and]
      exact .present hlt
    | next =>
      simp only [LookaheadMove.run, LookaheadMove.expected, hit.next_of_lt hcursor hlt, hrow,
        true_and]
      exact .unknown hlt
    | forward =>
      have hcurrent : Cursor.current (Lookahead.mk (Cursor.forwardBy cursor (taken + 1))
          .unknown) = .ok rows[taken] := hcursor.columns_eq taken hlt
      simp only [LookaheadMove.run, LookaheadMove.expected, hit.forward_of_lt hcursor hlt, hrow,
        hcurrent, hlt, decide_true, Option.map_some, true_and]
      exact .unknown hlt
  · have hend : rows.length ≤ taken := Nat.le_of_not_lt hlt
    have hrow : rows[taken]? = none := List.getElem?_eq_none hend
    have hgrown : taken ≤ move.takenBy taken := by
      unfold LookaheadMove.takenBy
      split <;> omega
    have hstands : Stands cursor rows (move.takenBy taken)
        ⟨Cursor.forwardBy cursor (rows.length + 1), .exhausted⟩ :=
      .exhausted (Nat.le_trans hend hgrown)
    cases move with
    | hasNext =>
      simp only [LookaheadMove.run, LookaheadMove.expected, hit.hasNext_of_le hcursor hend, hlt,
        decide_false, true_and]
      exact hstands
    | next =>
      simp only [LookaheadMove.run, LookaheadMove.expected, hit.next_of_le hcursor hend, hrow,
        true_and]
      exact hstands
    | forward =>
      simp only [LookaheadMove.run, LookaheadMove.expected, hit.forward_of_le hcursor hend, hrow,
        hlt, decide_false, Option.map_none, true_and]
      exact hstands

theorem after (hit : Stands cursor rows taken it) (hcursor : Cursor.Offers cursor rows)
    (moves : List LookaheadMove) :
    Stands cursor rows (taken + moves.countP LookaheadMove.takes)
      (LookaheadMove.after it moves) := by
  induction moves generalizing it taken with
  | nil => exact hit
  | cons move rest ih =>
    have hrest := ih (hit.run_eq hcursor move).2
    have htaken : move.takenBy taken + rest.countP LookaheadMove.takes =
        taken + (move :: rest).countP LookaheadMove.takes := by
      rw [List.countP_cons, LookaheadMove.takenBy]
      split <;> omega
    rwa [htaken] at hrest

/-- Together, the moves hand out the tuples in order, as many as have been asked for. -/
theorem delivered_eq (hit : Stands cursor rows taken it) (hcursor : Cursor.Offers cursor rows)
    (moves : List LookaheadMove) :
    (LookaheadMove.reports it moves).flatMap LookaheadMove.Report.delivered =
      ((rows.drop taken).take (moves.countP LookaheadMove.takes)).map .ok := by
  induction moves generalizing it taken with
  | nil => simp [LookaheadMove.reports]
  | cons move rest ih =>
    obtain ⟨hreport, hstands⟩ := hit.run_eq hcursor move
    rw [LookaheadMove.reports, List.flatMap_cons, hreport, ih hstands, List.countP_cons,
      LookaheadMove.takenBy]
    by_cases htakes : move.takes
    · have hdelivered : (move.expected rows taken).delivered = (rows[taken]?.map .ok).toList := by
        cases move with
        | hasNext => cases htakes
        | next | forward => rfl
      rw [if_pos htakes, if_pos htakes, hdelivered]
      by_cases hlt : taken < rows.length
      · rw [List.drop_eq_getElem_cons hlt, List.take_succ_cons, List.getElem?_eq_getElem hlt]
        rfl
      · have hnone : rows[taken]? = none := List.getElem?_eq_none (Nat.le_of_not_lt hlt)
        rw [hnone, List.drop_eq_nil_of_le (by omega), List.drop_eq_nil_of_le (by omega)]
        simp
    · cases move with
      | hasNext => rfl
      | next | forward => exact absurd rfl htakes

end Stands

end Lookahead

/-! ### Counting the moves of the cursor below -/

/-- A cursor and how often it has been moved. -/
structure Counted (κ : Type) where
  cursor : κ
  moves : Nat

namespace Counted

def start (cursor : κ) : Counted κ := ⟨cursor, 0⟩

instance : Cursor (Counted κ) where
  arity c := Cursor.arity c.cursor
  forward c := ((Cursor.forward c.cursor).1, ⟨(Cursor.forward c.cursor).2, c.moves + 1⟩)
  member c := Cursor.member c.cursor
  current c := Cursor.current c.cursor

theorem forwardBy_start (cursor : κ) (k : Nat) :
    Cursor.forwardBy (start cursor) k = ⟨Cursor.forwardBy cursor k, k⟩ := by
  induction k with
  | zero => rfl
  | succ k ih =>
    rw [Cursor.forwardBy_succ, ih, Cursor.forwardBy_succ]
    rfl

theorem offers (hcursor : Cursor.Offers cursor rows) : Cursor.Offers (start cursor) rows where
  forward_eq k hk := by
    rw [forwardBy_start]
    exact hcursor.forward_eq k hk
  current_eq i hi := by
    rw [forwardBy_start]
    exact hcursor.current_eq i hi
  columns_eq i hi := by
    rw [forwardBy_start]
    exact hcursor.columns_eq i hi

end Counted

namespace Lookahead

def uncounted (it : Lookahead (Counted κ)) : Lookahead κ := ⟨it.cursor.cursor, it.ahead⟩

theorem uncounted_hasNext (it : Lookahead (Counted κ)) :
    it.uncounted.hasNext = (it.hasNext.1, it.hasNext.2.uncounted) := by
  obtain ⟨counted, ahead⟩ := it
  cases ahead <;> rfl

theorem uncounted_run (it : Lookahead (Counted κ)) (move : LookaheadMove) :
    (move.run it).2.uncounted = (move.run it.uncounted).2 := by
  cases move with
  | hasNext => simp only [LookaheadMove.run, uncounted_hasNext]
  | next =>
    simp only [LookaheadMove.run, next, uncounted_hasNext]
    rcases it.hasNext.1 with _ | _ | _ <;> rfl
  | forward =>
    obtain ⟨counted, ahead⟩ := it
    cases ahead <;> rfl

/-- To count the moves changes nothing. -/
theorem uncounted_after (it : Lookahead (Counted κ)) (moves : List LookaheadMove) :
    (LookaheadMove.after it moves).uncounted = LookaheadMove.after it.uncounted moves := by
  induction moves generalizing it with
  | nil => rfl
  | cons move rest ih =>
    have hrest := ih (move.run it).2
    rwa [uncounted_run] at hrest

variable {it : Lookahead (Counted κ)} {taken : Nat}

/-- The cursor below has been moved once for each tuple that was found, and once more if a tuple or
the end has been looked at ahead. -/
theorem Stands.moves_le (hit : Stands (Counted.start cursor) rows taken it) :
    it.cursor.cursor = Cursor.forwardBy cursor it.cursor.moves ∧
      it.cursor.moves ≤ min taken rows.length + 1 := by
  cases hit <;> rw [Counted.forwardBy_start] <;> exact ⟨rfl, by simp only; omega⟩

/-- However questions and moves are mixed, the tuples that are handed out are all tuples of the
cursor in order, without a gap or a repetition. A tuple is found as long as not all have been handed
out, and never again after that. The cursor below is moved at most once for each tuple and once for
the end, and not any more once it has reported its end. -/
theorem hands_out_each_once (hcursor : Cursor.Offers cursor rows) (moves : List LookaheadMove) :
    let taken := moves.countP LookaheadMove.takes
    let it := LookaheadMove.after (start cursor) moves
    let counted := LookaheadMove.after (start (Counted.start cursor)) moves
    (LookaheadMove.reports (start cursor) moves).flatMap LookaheadMove.Report.delivered =
      (rows.take taken).map .ok ∧
    it.hasNext.1 = .ok (decide (taken < rows.length)) ∧
    it.next.1 = .ok rows[taken]? ∧
    it.forward.1 = .ok (decide (taken < rows.length)) ∧
    (∀ hlt : taken < rows.length, Cursor.current it.forward.2 = .ok rows[taken]) ∧
    counted.uncounted = it ∧
    counted.cursor.cursor = Cursor.forwardBy cursor counted.cursor.moves ∧
    counted.cursor.moves ≤ min taken rows.length + 1 ∧
    ∀ k, k + 1 < counted.cursor.moves →
      (Cursor.forward (Cursor.forwardBy cursor k)).1 = .ok true := by
  intro taken it counted
  have hstands : Stands cursor rows taken it := by
    simpa using (stands_start cursor rows).after hcursor moves
  have hcounted : Stands (Counted.start cursor) rows taken counted := by
    simpa using (stands_start (Counted.start cursor) rows).after (Counted.offers hcursor) moves
  obtain ⟨hmoved, hmoves⟩ := hcounted.moves_le
  refine ⟨?_, ?_, ?_, ?_, fun hlt => ?_, uncounted_after _ moves, hmoved, hmoves, fun k hk => ?_⟩
  · simpa using (stands_start cursor rows).delivered_eq hcursor moves
  · exact LookaheadMove.Report.remains.inj (hstands.run_eq hcursor .hasNext).1
  · exact LookaheadMove.Report.took.inj (hstands.run_eq hcursor .next).1
  · exact (LookaheadMove.Report.moved.inj (hstands.run_eq hcursor .forward).1).1
  · rw [hstands.forward_of_lt hcursor hlt]
    exact hcursor.columns_eq taken hlt
  · rw [hcursor.forward_eq k (by omega)]
    exact congrArg Except.ok (decide_eq_true (by omega))

end Lookahead

namespace Sales

/-- A feed of towns that goes on after it has reported its end. -/
structure TownFeed where
  town? : Option Member
  announced : List (Option Member)

instance : Cursor TownFeed where
  arity _ := 1
  forward feed :=
    (.ok feed.announced.head?.join.isSome, ⟨feed.announced.head?.join, feed.announced.tail⟩)
  member feed _ := (feed.town?.map .ok).getD (violate .notPositioned)
  current feed := (feed.town?.map fun m => .ok [m]).getD (violate .notPositioned)

def townFeed : TownFeed := ⟨none, [some oslo, some bergen, some oslo, none, some bergen]⟩

def townMoves : List LookaheadMove :=
  [.hasNext, .next, .forward, .hasNext, .hasNext, .forward, .next, .hasNext, .forward]

/-- The feed has three towns, one of them twice. It has a fourth, which is not asked for once it has
reported its end. -/
theorem townFeed_handed_out :
    (LookaheadMove.reports (Lookahead.start townFeed) townMoves).flatMap
        LookaheadMove.Report.delivered = [.ok [oslo], .ok [bergen], .ok [oslo]] ∧
      (LookaheadMove.after (Lookahead.start (Counted.start townFeed)) townMoves).cursor.moves
        ≤ 4 ∧
      (Cursor.forward (Cursor.forwardBy townFeed 4)).1 = .ok true := by
  have hoffers : Cursor.Offers townFeed [[oslo], [bergen], [oslo]] := by
    refine ⟨fun k hk => ?_, fun i hi => ?_, fun i hi => ?_⟩
    · have hk' : k = 0 ∨ k = 1 ∨ k = 2 ∨ k = 3 := by
        simp only [List.length_cons, List.length_nil] at hk
        omega
      rcases hk' with rfl | rfl | rfl | rfl <;> rfl
    all_goals
      have hi' : i = 0 ∨ i = 1 ∨ i = 2 := by
        simp only [List.length_cons, List.length_nil] at hi
        omega
      rcases hi' with rfl | rfl | rfl <;> rfl
  obtain ⟨hdelivered, -, -, -, -, -, -, hmoves, -⟩ :=
    Lookahead.hands_out_each_once hoffers townMoves
  exact ⟨hdelivered, hmoves, rfl⟩

end Sales

end CubeCalc
