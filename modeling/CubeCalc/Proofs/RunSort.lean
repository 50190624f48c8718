import CubeCalc.Proofs.InterruptedSort
import CubeCalc.Proofs.StableSort
/-!
# Sorting by runs where no comparison fails

Rows that are few sink one by one. Runs that are found, or blocks that are sorted, are merged with
the runs before them. Each of these steps puts rows in order without moving level ones past each
other, so that where no comparison fails it comes to the stable sort of its rows.
-/

namespace CubeCalc

open Outcome Attempt

namespace RowComparison

variable {compare : RowComparison} {order : Tuple → Tuple → Ordering} {a b row : Tuple}
  {rows other sorted own left right : List Tuple} {sortsBlocks : Bool} {run last : Run}
  {sortRows : List Tuple → Attempt (List Tuple)}

/-- No comparison of two of the rows fails, and an order says how they compare. -/
def Decides (compare : RowComparison) (order : Tuple → Tuple → Ordering) (rows : List Tuple) :
    Prop :=
  ∀ a ∈ rows, ∀ b ∈ rows, compare a b = .ok (order a b)

theorem Decides.mono (h : Decides compare order rows) (hother : ∀ row ∈ other, row ∈ rows) :
    Decides compare order other :=
  fun a ha b hb => h a (hother a ha) b (hother b hb)

theorem Decides.isLess_eq (h : Decides compare order rows) (ha : a ∈ rows) (hb : b ∈ rows) :
    compare.isLess a b = .ok (order a b == .lt) := by
  rw [isLess, h a ha b hb]
  rfl

theorem sort_eq (h : Decides compare order rows) :
    compare.sort rows = .ok (arranged order rows) := by
  have hsorted : rows.mergeSort compare.stays = arranged order rows := by
    refine mergeSort_eq_arranged fun a ha b hb => ?_
    rw [stays, h a ha b hb]
  have hpairs : ∀ pair ∈ (arranged order rows).zip (arranged order rows).tail,
      compare pair.1 pair.2 = .ok (order pair.1 pair.2) := by
    rintro ⟨a, b⟩ hpair
    obtain ⟨ha, hb⟩ := List.of_mem_zip hpair
    exact h a (mem_arranged.mp ha) b (mem_arranged.mp (List.mem_of_mem_tail hb))
  rw [sort, hsorted, mapM_eq_ok hpairs]
  rfl

/-! ### What runs stand for -/

/-- A run that stands for some rows has them in order, or as they are if runs may be unsorted. -/
inductive Run.StandsFor (order : Tuple → Tuple → Ordering) (sortsBlocks : Bool)
    (rows : List Tuple) : Run → Prop
  | sorted : StandsFor order sortsBlocks rows ⟨arranged order rows, true⟩
  | unsorted (h : sortsBlocks = false) : StandsFor order sortsBlocks rows ⟨rows, false⟩

/-- Standing runs, each for the rows that it has. -/
inductive StandFor (order : Tuple → Tuple → Ordering) (sortsBlocks : Bool) :
    List Tuple → List (Run × Nat) → Prop
  | nil : StandFor order sortsBlocks [] []
  | cons {rows own : List Tuple} {run : Run} {before : List (Run × Nat)} (depth : Nat)
    (hbefore : StandFor order sortsBlocks rows before)
    (hrun : run.StandsFor order sortsBlocks own) :
    StandFor order sortsBlocks (rows ++ own) ((run, depth) :: before)

/-- Rows are sorted by what settles the runs that were left unsorted. -/
def Settles (compare : RowComparison) (order : Tuple → Tuple → Ordering) (sortsBlocks : Bool)
    (sortRows : List Tuple → Attempt (List Tuple)) : Prop :=
  sortsBlocks = false → ∀ rows, Decides compare order rows →
    sortRows rows = .ok (arranged order rows)

theorem settle_eq (hsort : Settles compare order sortsBlocks sortRows)
    (hrun : run.StandsFor order sortsBlocks rows) (h : Decides compare order rows) :
    run.settle sortRows = .ok (arranged order rows) := by
  cases hrun with
  | sorted => rfl
  | unsorted hblocks => exact hsort hblocks rows h

variable [Std.TransCmp order]

/-! ### Sinking -/

/-- The sorted rows are in descending order, as they are passed from the last one on. -/
theorem sink_eq (h : Decides compare order (row :: rows)) (hrows : Ascends order rows.reverse) :
    compare.sink row rows = .ok (arranged order (rows.reverse ++ [row])).reverse := by
  induction rows with
  | nil =>
    have hrow : Ascends order [row] := List.pairwise_singleton _ row
    rw [sink, List.reverse_nil, List.nil_append, hrow.arranged_eq]
    rfl
  | cons last rest ih =>
    have hmem : last ∈ row :: last :: rest := List.mem_cons_of_mem row List.mem_cons_self
    rw [List.reverse_cons] at hrows
    have hrest : Ascends order rest.reverse := (List.pairwise_append.mp hrows).1
    rw [sink, h row List.mem_cons_self last hmem, List.reverse_cons, List.append_assoc]
    cases hrow : order row last with
    | lt =>
      have hsub : ∀ other ∈ row :: rest, other ∈ row :: last :: rest := by grind
      have hpass : Levels order (rest.reverse ++ last :: [row]) (rest.reverse ++ [row] ++ [last]) :=
        Levels.pass (List.forall_mem_singleton.mpr (ne_eq_of_lt hrow)) rest.reverse
      have hle : ∀ other ∈ rest.reverse ++ [row], (order other last).isLE := by
        intro other hother
        rcases List.mem_append.mp hother with hother | hother
        · exact hrows.isLE_of_mem_concat (List.mem_append_left _ hother)
        · rw [List.mem_singleton.mp hother]
          exact Ordering.isLE_of_eq_lt hrow
      rw [List.singleton_append, arranged_eq_concat hpass hle, List.reverse_append,
        ih (h.mono hsub) hrest]
      rfl
    | eq | gt =>
      have hle : (order last row).isLE := isLE_iff_ne_lt.mpr (by rw [hrow]; decide)
      have hascends : Ascends order (rest.reverse ++ [last] ++ [row]) := by
        refine hrows.concat fun other hother => ?_
        exact Std.TransCmp.isLE_trans (hrows.isLE_of_mem_concat hother) hle
      rw [← List.append_assoc, hascends.arranged_eq]
      simp

theorem sinkAll_eq (h : Decides compare order (sorted ++ rows))
    (hsorted : Ascends order sorted.reverse) :
    compare.sinkAll sorted rows = .ok (arranged order (sorted.reverse ++ rows)) := by
  induction rows generalizing sorted with
  | nil => rw [sinkAll, List.append_nil, hsorted.arranged_eq]
  | cons row rest ih =>
    have hrow : Decides compare order (row :: sorted) := h.mono (by grind)
    have hsunk : arranged order (sorted.reverse ++ row :: rest) =
        arranged order (arranged order (sorted.reverse ++ [row]) ++ rest) := by
      rw [arranged_arranged_append, List.append_assoc, List.singleton_append]
    have hascends : Ascends order (arranged order (sorted.reverse ++ [row])) := ascends_arranged _
    have hmem : ∀ other ∈ (arranged order (sorted.reverse ++ [row])).reverse ++ rest,
        other ∈ sorted ++ row :: rest := by
      intro other
      simp only [List.mem_append, List.mem_reverse, mem_arranged, List.mem_cons]
      tauto
    rw [sinkAll, sink_eq hrow hsorted, hsunk]
    generalize arranged order (sorted.reverse ++ [row]) = sunk at hascends hmem ⊢
    have hascending : Attempt.reverse (.ok sunk.reverse) = .ok sunk :=
      congrArg Except.ok sunk.reverse_reverse
    rw [← sunk.reverse_reverse] at hascends
    rw [hascending, between_ok_bind, ih (h.mono hmem) hascends, List.reverse_reverse]

/-! ### Merging -/

theorem mergeUp_eq (h : Decides compare order (left ++ right)) (hleft : Ascends order left)
    (hright : Ascends order right) :
    compare.mergeUp left right = .ok (arranged order (left ++ right)) := by
  fun_induction mergeUp compare left right with
  | case1 right => rw [List.nil_append, hright.arranged_eq]
  | case2 left => rw [List.append_nil, hleft.arranged_eq]
  | case3 a left b right hcompare ih =>
    have hrest : Decides compare order (a :: left ++ right) := h.mono (by grind)
    rw [h b (by simp) a (by simp), Except.ok.injEq] at hcompare
    have hbefore : ∀ other ∈ a :: left, order b other = .lt := fun other hother =>
      Std.TransCmp.lt_of_lt_of_isLE hcompare (hleft.isLE_of_mem hother)
    have hmove : Levels order (a :: left ++ b :: right) (b :: (a :: left ++ right)) :=
      Levels.move (fun other hother => by rw [hbefore other hother]; decide) right
    have hle : ∀ other ∈ a :: left ++ right, (order b other).isLE := by
      intro other hother
      rcases List.mem_append.mp hother with hother | hother
      · exact Ordering.isLE_of_eq_lt (hbefore other hother)
      · exact hright.isLE_of_mem (List.mem_cons_of_mem b hother)
    rw [arranged_eq_cons hmove hle, ih hrest hleft hright.of_cons]
    rfl
  | case4 a left b right order' hne hcompare ih =>
    have hrest : Decides compare order (left ++ b :: right) := h.mono (by grind)
    rw [h b (by simp) a (by simp), Except.ok.injEq] at hcompare
    have hab : (order a b).isLE := by
      rw [isLE_iff_ne_lt, hcompare]
      exact hne
    have hle : ∀ other ∈ left ++ b :: right, (order a other).isLE := by
      intro other hother
      rcases List.mem_append.mp hother with hother | hother
      · exact hleft.isLE_of_mem (List.mem_cons_of_mem a hother)
      · exact Std.TransCmp.isLE_trans hab (hright.isLE_of_mem hother)
    rw [List.cons_append, arranged_eq_cons (.refl _) hle, ih hrest hleft.of_cons hright]
    rfl
  | case5 a left b right failure hcompare =>
    rw [h b (by simp) a (by simp)] at hcompare
    cases hcompare

/-- Both runs are in descending order. -/
theorem mergeDown_eq (h : Decides compare order (left ++ right))
    (hleft : Ascends order left.reverse) (hright : Ascends order right.reverse) :
    compare.mergeDown left right =
      .ok (arranged order (left.reverse ++ right.reverse)).reverse := by
  fun_induction mergeDown compare left right with
  | case1 right => rw [List.reverse_nil, List.nil_append, hright.arranged_eq, List.reverse_reverse]
  | case2 left => rw [List.reverse_nil, List.append_nil, hleft.arranged_eq, List.reverse_reverse]
  | case3 a left b right hcompare ih =>
    have hrest : Decides compare order (left ++ b :: right) := h.mono (by grind)
    rw [h b (by simp) a (by simp), Except.ok.injEq] at hcompare
    rw [List.reverse_cons] at hleft
    have hleft' : Ascends order left.reverse := (List.pairwise_append.mp hleft).1
    have hbefore : ∀ other ∈ (b :: right).reverse, order other a = .lt := by
      intro other hother
      rw [List.reverse_cons] at hright hother
      exact Std.TransCmp.lt_of_isLE_of_lt (hright.isLE_of_mem_concat hother) hcompare
    have hpass : Levels order (left.reverse ++ a :: (b :: right).reverse)
        (left.reverse ++ (b :: right).reverse ++ [a]) :=
      Levels.pass (fun other hother => ne_eq_of_lt (hbefore other hother)) left.reverse
    have hle : ∀ other ∈ left.reverse ++ (b :: right).reverse, (order other a).isLE := by
      intro other hother
      rcases List.mem_append.mp hother with hother | hother
      · exact hleft.isLE_of_mem_concat (List.mem_append_left _ hother)
      · exact Ordering.isLE_of_eq_lt (hbefore other hother)
    rw [List.reverse_cons, List.append_assoc, List.singleton_append,
      arranged_eq_concat hpass hle, List.reverse_append, ih hrest hleft' hright]
    rfl
  | case4 a left b right order' hne hcompare ih =>
    have hrest : Decides compare order (a :: left ++ right) := h.mono (by grind)
    rw [h b (by simp) a (by simp), Except.ok.injEq] at hcompare
    have hab : (order a b).isLE := by
      rw [isLE_iff_ne_lt, hcompare]
      exact hne
    rw [List.reverse_cons] at hright
    have hright' : Ascends order right.reverse := (List.pairwise_append.mp hright).1
    have hle : ∀ other ∈ (a :: left).reverse ++ right.reverse, (order other b).isLE := by
      intro other hother
      rcases List.mem_append.mp hother with hother | hother
      · rw [List.reverse_cons] at hleft hother
        exact Std.TransCmp.isLE_trans (hleft.isLE_of_mem_concat hother) hab
      · exact hright.isLE_of_mem_concat (List.mem_append_left _ hother)
    have hsplit : (a :: left).reverse ++ (b :: right).reverse =
        (a :: left).reverse ++ right.reverse ++ [b] := by simp
    rw [hsplit, arranged_eq_concat (.refl _) hle, List.reverse_append, ih hrest hleft hright']
    rfl
  | case5 a left b right failure hcompare =>
    rw [h b (by simp) a (by simp)] at hcompare
    cases hcompare

theorem merge_eq (h : Decides compare order (left ++ right)) (hleft : Ascends order left)
    (hright : Ascends order right) :
    compare.merge left right = .ok (arranged order (left ++ right)) := by
  rw [merge]
  split
  · exact mergeUp_eq h hleft hright
  · have hturned : Decides compare order (left.reverse ++ right.reverse) := h.mono (by simp)
    rw [mergeDown_eq hturned]
    · rw [List.reverse_reverse, List.reverse_reverse]
      exact congrArg Except.ok (List.reverse_reverse _)
    · rwa [List.reverse_reverse]
    · rwa [List.reverse_reverse]

theorem sortHalves_eq (h : Decides compare order rows) :
    compare.sortHalves rows = .ok (arranged order rows) := by
  have hleft : Decides compare order (rows.take (rows.length / 2)) :=
    h.mono fun row => List.mem_of_mem_take
  have hright : Decides compare order (rows.drop (rows.length / 2)) :=
    h.mono fun row => List.mem_of_mem_drop
  have hhalves : Decides compare order (arranged order (rows.take (rows.length / 2)) ++
      arranged order (rows.drop (rows.length / 2))) := by
    refine h.mono fun row hrow => ?_
    rwa [List.mem_append, mem_arranged, mem_arranged, ← List.mem_append,
      List.take_append_drop] at hrow
  rw [sortHalves, List.splitAt_eq]
  dsimp only
  rw [sort_eq hleft, onlyRead_ok_bind, sort_eq hright, onlyRead_ok_bind, sort_eq hhalves,
    arranged_append_arranged, List.take_append_drop]
  rfl

/-! ### Runs -/

/-- One row may come after another one in a run. -/
def Continues (order : Tuple → Tuple → Ordering) (descends : Bool) (a b : Tuple) : Prop :=
  (order b a == .lt) = descends

theorem Continues.trans {descends : Bool} {c : Tuple} (hab : Continues order descends a b)
    (hbc : Continues order descends b c) : Continues order descends a c := by
  cases descends with
  | true =>
    rw [Continues, beq_iff_eq] at hab hbc ⊢
    exact Std.TransCmp.lt_trans hbc hab
  | false =>
    rw [Continues, beq_lt_eq_false_iff] at hab hbc ⊢
    exact Std.TransCmp.isLE_trans hab hbc

theorem Continues.cons {descends : Bool} (hab : Continues order descends a b)
    (hrun : (b :: rows).Pairwise (Continues order descends)) :
    (a :: b :: rows).Pairwise (Continues order descends) := by
  refine List.pairwise_cons.mpr ⟨fun c hc => ?_, hrun⟩
  rcases List.mem_cons.mp hc with rfl | hc
  · exact hab
  · exact hab.trans (List.rel_of_pairwise_cons hrun hc)

theorem exists_runLength_eq {last : Tuple} (h : Decides compare order (last :: rows))
    (descends : Bool) :
    ∃ length, compare.runLength descends last rows = .ok length ∧
      (last :: rows.take length).Pairwise (Continues order descends) := by
  induction rows generalizing last with
  | nil => exact ⟨0, rfl, List.pairwise_singleton _ last⟩
  | cons row rest ih =>
    have hrest : Decides compare order (row :: rest) := h.mono (by grind)
    rw [runLength, h.isLess_eq (by simp) (by simp), Outcome.ok_bind]
    split
    · next hrow =>
      obtain ⟨length, hlength, hrun⟩ := ih hrest
      exact ⟨length + 1, by rw [hlength]; rfl, Continues.cons hrow hrun⟩
    · exact ⟨0, rfl, List.pairwise_singleton _ last⟩

theorem exists_findRun_eq (h : Decides compare order rows) (least : Nat) :
    ∃ length descends, compare.findRun least rows = .ok (length, descends) ∧
      (rows.take length).Pairwise (Continues order descends) := by
  rw [findRun]
  split
  · match rows with
    | [] => exact ⟨0, false, rfl, .nil⟩
    | [row] => exact ⟨1, false, rfl, List.pairwise_singleton _ row⟩
    | first :: second :: rest =>
      have hrest : Decides compare order (second :: rest) := h.mono (by grind)
      obtain ⟨length, hlength, hrun⟩ := exists_runLength_eq hrest (order second first == .lt)
      refine ⟨2 + length, order second first == .lt, ?_, ?_⟩
      · rw [frontRun, h.isLess_eq (by simp) (by simp), Outcome.ok_bind, hlength]
        rfl
      · rw [Nat.add_comm]
        exact Continues.cons rfl hrun
  · exact ⟨0, false, rfl, .nil⟩

/-- No two rows of a descending run are level. -/
theorem run_eq_arranged {descends : Bool} (h : rows.Pairwise (Continues order descends)) :
    (if descends then rows.reverse else rows) = arranged order rows := by
  cases descends with
  | true =>
    have hbefore : rows.Pairwise fun a b => order b a = .lt := h.imp fun hab => by
      rwa [Continues, beq_iff_eq] at hab
    have hascends : Ascends order rows.reverse :=
      List.pairwise_reverse.mpr (hbefore.imp Ordering.isLE_of_eq_lt)
    exact hascends.eq_arranged (.reverse (hbefore.imp ne_eq_of_lt))
  | false =>
    have hascends : Ascends order rows := h.imp fun hab => by
      rwa [Continues, beq_lt_eq_false_iff] at hab
    exact hascends.arranged_eq.symm

theorem exists_takeRun_eq (h : Decides compare order rows) (sortsBlocks : Bool) (least : Nat) :
    ∃ front rest run, compare.takeRun sortsBlocks least rows = .ok (run, rest) ∧
      rows = front ++ rest ∧ run.StandsFor order sortsBlocks front := by
  obtain ⟨length, descends, hfind, hrun⟩ := exists_findRun_eq h least
  rw [takeRun, hfind, onlyRead_ok_bind]
  simp only [List.splitAt_eq]
  split
  · refine ⟨rows.take length, rows.drop length, _, rfl, (List.take_append_drop ..).symm, ?_⟩
    rw [run_eq_arranged hrun]
    exact .sorted
  · cases hblocks : sortsBlocks with
    | true =>
      have hblock : Decides compare order (rows.take blockLength) :=
        h.mono fun row => List.mem_of_mem_take
      rw [if_pos rfl, sortHalves_eq hblock, between_ok_bind]
      exact ⟨rows.take blockLength, rows.drop blockLength, _, rfl,
        (List.take_append_drop ..).symm, .sorted⟩
    | false =>
      exact ⟨rows.take least, rows.drop least, _, rfl, (List.take_append_drop ..).symm,
        .unsorted rfl⟩

/-! ### Joining runs -/

theorem exists_join_eq (hsort : Settles compare order sortsBlocks sortRows)
    (hrun : run.StandsFor order sortsBlocks left) (hlast : last.StandsFor order sortsBlocks right)
    (h : Decides compare order (left ++ right)) :
    ∃ joined, compare.join sortRows run last = .ok joined ∧
      joined.StandsFor order sortsBlocks (left ++ right) := by
  have hleft : Decides compare order left := h.mono fun row => List.mem_append_left right
  have hright : Decides compare order right := h.mono fun row => List.mem_append_right left
  have hsides : Decides compare order (arranged order left ++ arranged order right) :=
    h.mono (by simp)
  rw [join]
  split
  · rw [settle_eq hsort hrun hleft, between_ok_bind, settle_eq hsort hlast hright,
      between_ok_bind, merge_eq hsides (ascends_arranged left) (ascends_arranged right),
      arranged_append_arranged]
    exact ⟨_, rfl, .sorted⟩
  · next hunsorted =>
    cases hrun with
    | sorted => simp at hunsorted
    | unsorted hblocks =>
      cases hlast with
      | sorted => simp at hunsorted
      | unsorted => exact ⟨_, rfl, .unsorted hblocks⟩

theorem exists_joinBack_eq (hsort : Settles compare order sortsBlocks sortRows) (depth : Nat)
    {before : List (Run × Nat)} (hbefore : StandFor order sortsBlocks rows before)
    (hlast : last.StandsFor order sortsBlocks own) (h : Decides compare order (rows ++ own)) :
    ∃ rows' own' joined before', compare.joinBack sortRows depth last before =
        .ok (joined, before') ∧ rows ++ own = rows' ++ own' ∧
      StandFor order sortsBlocks rows' before' ∧ joined.StandsFor order sortsBlocks own' := by
  induction hbefore generalizing last own with
  | nil => exact ⟨[], own, last, [], rfl, rfl, .nil, hlast⟩
  | @cons rows middle run before leftDepth hbefore hrun ih =>
    rw [List.append_assoc] at h
    obtain ⟨joined, hjoin, hjoined⟩ := exists_join_eq hsort hrun hlast
      (h.mono fun row => List.mem_append_right rows)
    rw [joinBack]
    split
    · rw [hjoin, between_ok_bind, List.append_assoc]
      exact ih hjoined h
    · exact ⟨rows ++ middle, own, last, _, rfl, rfl, hbefore.cons leftDepth hrun, hlast⟩

/-- At the end all runs are joined. -/
theorem exists_joinBack_zero_eq (hsort : Settles compare order sortsBlocks sortRows)
    {before : List (Run × Nat)} (hbefore : StandFor order sortsBlocks rows before)
    (hlast : last.StandsFor order sortsBlocks own) (h : Decides compare order (rows ++ own)) :
    ∃ run, (compare.joinBack sortRows 0 last before >>= fun joined => .ok joined.1) = .ok run ∧
      run.StandsFor order sortsBlocks (rows ++ own) := by
  obtain ⟨rows', own', joined, before', hjoin, hrows, hleft, hjoined⟩ :=
    exists_joinBack_eq hsort 0 hbefore hlast h
  obtain rfl : before' = [] := eq_nil_of_joinBack_zero hjoin
  cases hleft
  rw [hjoin, hrows, List.nil_append]
  exact ⟨joined, rfl, hjoined⟩

theorem exists_joinRuns_eq (hsort : Settles compare order sortsBlocks sortRows) {count steps : Nat}
    (hsteps : steps ≤ count) {before : List (Run × Nat)} {rest : List Tuple}
    (hbefore : StandFor order sortsBlocks rows before)
    (hlast : last.StandsFor order sortsBlocks own) (hrest : rest.length ≤ steps)
    (h : Decides compare order (rows ++ own ++ rest)) :
    ∃ run, compare.joinRuns sortRows sortsBlocks count steps before last rest = .ok run ∧
      run.StandsFor order sortsBlocks (rows ++ own ++ rest) := by
  induction steps generalizing rows own before last rest with
  | zero =>
    obtain rfl := List.length_eq_zero_iff.mp (Nat.le_zero.mp hrest)
    rw [List.append_nil] at h ⊢
    rw [joinRuns]
    · exact exists_joinBack_zero_eq hsort hbefore hlast h
    · simp
  | succ steps ih =>
    cases rest with
    | nil =>
      rw [List.append_nil] at h ⊢
      rw [joinRuns]
      · exact exists_joinBack_zero_eq hsort hbefore hlast h
      · simp
    | cons row rest =>
      have hleast : 0 < leastRunLength count := leastRunLength_pos (by omega)
      obtain ⟨front, left, next, htake, hfront, hnext⟩ := exists_takeRun_eq
        (h.mono fun other => List.mem_append_right _) sortsBlocks (leastRunLength count)
      have hleft : left.length < (row :: rest).length :=
        length_lt_of_takeRun (List.cons_ne_nil row rest) hleast htake
      rw [joinRuns, htake, between_ok_bind]
      dsimp only
      generalize partingDepth _ _ _ _ = depth
      obtain ⟨rows', own', joined, before', hjoin, hrows, hbefore', hjoined⟩ :=
        exists_joinBack_eq hsort depth hbefore hlast (h.mono fun other => List.mem_append_left _)
      rw [hfront, ← List.append_assoc, hrows] at h ⊢
      rw [hjoin, between_ok_bind]
      rw [List.length_cons] at hleft hrest
      exact ih (by omega) (hbefore'.cons depth hjoined) hnext (by omega) h

theorem sortRuns_eq (hsort : Settles compare order sortsBlocks sortRows)
    (h : Decides compare order rows) :
    compare.sortRuns sortRows sortsBlocks rows = .ok (arranged order rows) := by
  obtain ⟨front, rest, first, htake, hfront, hfirst⟩ :=
    exists_takeRun_eq h sortsBlocks (leastRunLength rows.length)
  have hrest : rest.length ≤ rows.length := by
    rw [hfront, List.length_append]
    exact Nat.le_add_left _ _
  have hrows : Decides compare order ([] ++ front ++ rest) := by rwa [List.nil_append, ← hfront]
  obtain ⟨run, hjoin, hrun⟩ :=
    exists_joinRuns_eq hsort (Nat.le_refl rows.length) .nil hfirst hrest hrows
  rw [List.nil_append, ← hfront] at hrun
  rw [sortRuns, htake, Attempt.ok_bind]
  dsimp only
  rw [hjoin, Attempt.ok_bind, settle_eq hsort hrun h]

end RowComparison

end CubeCalc
