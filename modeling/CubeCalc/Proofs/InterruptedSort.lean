import CubeCalc.Proofs.ListRefinement
import CubeCalc.Tuple.Sort
/-!
# Interrupted sorts keep their rows

A sort in place ends where a comparison fails, and leaves the rows part way to their order. Each of
its steps moves rows past each other, or sets rows aside and puts them back. None of them looks at
what the comparisons say for that, so that every row is still there once, and the list stands for
rows as it did before.
-/

namespace CubeCalc

open Outcome

namespace Attempt

variable {α β : Type} {rowsOf : α → List Tuple} {rowsOf' : β → List Tuple}
  {rows rows' : List Tuple} {attempt : Attempt α}

@[simp]
theorem ok_bind (a : α) (f : α → Attempt β) : (Except.ok a : Attempt α) >>= f = f a := rfl

@[simp]
theorem onlyRead_ok_bind (rows : List Tuple) (a : α) (f : α → Attempt β) :
    onlyRead rows (.ok a) >>= f = f a := rfl

@[simp]
theorem between_ok_bind (before after : List Tuple) (a : α) (f : α → Attempt β) :
    between before after (.ok a) >>= f = f a := rfl

/-- Whether or not an attempt comes to its end, it leaves the rows that there were. -/
def Keeps (rowsOf : α → List Tuple) (rows : List Tuple) : Attempt α → Prop
  | .ok a => (rowsOf a).Perm rows
  | .error left => left.Perm rows

theorem keeps_ok (rows : List Tuple) : Keeps id rows (.ok rows) := .refl rows

theorem Keeps.of_perm (h : Keeps rowsOf rows attempt) (hperm : rows.Perm rows') :
    Keeps rowsOf rows' attempt := by
  cases attempt with
  | error left => exact List.Perm.trans h hperm
  | ok a => exact List.Perm.trans h hperm

theorem Keeps.bind {f : α → Attempt β} (h : Keeps rowsOf rows attempt)
    (hf : ∀ a, attempt = .ok a → (rowsOf a).Perm rows → Keeps rowsOf' rows (f a)) :
    Keeps rowsOf' rows (attempt >>= f) := by
  cases attempt with
  | error left => exact h
  | ok a => exact hf a rfl h

theorem exists_of_bind_eq_ok {f : α → Attempt β} {b : β} (h : attempt >>= f = .ok b) :
    ∃ a, attempt = .ok a ∧ f a = .ok b := by
  cases attempt with
  | error left => cases h
  | ok a => exact ⟨a, rfl, h⟩

theorem Keeps.between (h : Keeps rowsOf rows attempt) (before after : List Tuple) :
    Keeps (fun a => before ++ rowsOf a ++ after) (before ++ rows ++ after)
      (between before after attempt) := by
  cases attempt with
  | error left => exact (List.Perm.append_left before h).append_right after
  | ok a => exact (List.Perm.append_left before h).append_right after

theorem eq_ok_of_between {before after : List Tuple} {a : α}
    (h : between before after attempt = .ok a) : attempt = .ok a := by
  cases attempt with
  | error left => cases h
  | ok a => exact h

theorem keeps_onlyRead_bind {o : Outcome α} {f : α → Attempt β}
    (hf : ∀ a, o = .ok a → Keeps rowsOf' rows (f a)) :
    Keeps rowsOf' rows (onlyRead rows o >>= f) := by
  cases o with
  | error failure => exact .refl rows
  | ok a => exact hf a rfl

variable {attempt : Attempt (List Tuple)}

theorem Keeps.cons (h : Keeps id rows attempt) (row : Tuple) :
    Keeps id (row :: rows) (Attempt.cons row attempt) := by
  cases attempt with
  | error left =>
    change ([row] ++ left ++ []).Perm (row :: rows)
    rw [List.append_nil]
    exact List.Perm.cons row h
  | ok a => exact List.Perm.cons row h

theorem Keeps.reverse (h : Keeps id rows attempt) : Keeps id rows attempt.reverse := by
  cases attempt with
  | error left => exact (List.reverse_perm left).trans h
  | ok a => exact (List.reverse_perm a).trans h

end Attempt

namespace RowComparison

open Attempt

variable {compare : RowComparison} {rows sorted : List Tuple}

theorem perm_of_sort (hsort : compare.sort rows = .ok sorted) : sorted.Perm rows := by
  obtain ⟨_, -, hsorted⟩ := bind_eq_ok_iff.mp hsort
  rw [← Except.ok.inj hsorted]
  exact List.mergeSort_perm rows _

/-! ### Sinking -/

theorem keeps_sink (compare : RowComparison) (row : Tuple) (sorted : List Tuple) :
    Keeps id (row :: sorted) (compare.sink row sorted) := by
  induction sorted with
  | nil => exact .refl [row]
  | cons last rest ih =>
    rw [sink]
    split
    · exact (ih.cons last).of_perm (.swap row last rest)
    · exact .refl _
    · exact .refl _

theorem keeps_sinkAll (compare : RowComparison) (sorted rows : List Tuple) :
    Keeps id (sorted ++ rows) (compare.sinkAll sorted rows) := by
  induction rows generalizing sorted with
  | nil =>
    rw [sinkAll, List.append_nil]
    exact sorted.reverse_perm
  | cons row rest ih =>
    have hsink := (keeps_sink compare row sorted).reverse.between [] rest
    have hperm : (row :: sorted ++ rest).Perm (sorted ++ row :: rest) := List.perm_middle.symm
    rw [sinkAll]
    refine (hsink.of_perm hperm).bind fun ascending _ hascending => ?_
    refine (ih ascending.reverse).of_perm ?_
    exact (ascending.reverse_perm.append_right rest).trans hascending

/-! ### Merging -/

theorem keeps_mergeUp (compare : RowComparison) (left right : List Tuple) :
    Keeps id (left ++ right) (compare.mergeUp left right) := by
  fun_induction mergeUp compare left right with
  | case1 right => exact .refl right
  | case2 left =>
    rw [List.append_nil]
    exact .refl left
  | case3 a left b right _ ih => exact (ih.cons b).of_perm List.perm_middle.symm
  | case4 a left b right _ _ _ ih => exact ih.cons a
  | case5 a left b right => exact .refl _

theorem keeps_mergeDown (compare : RowComparison) (left right : List Tuple) :
    Keeps id (left ++ right) (compare.mergeDown left right) := by
  fun_induction mergeDown compare left right with
  | case1 right => exact .refl right
  | case2 left =>
    rw [List.append_nil]
    exact .refl left
  | case3 a left b right _ ih => exact ih.cons a
  | case4 a left b right _ _ _ ih => exact (ih.cons b).of_perm List.perm_middle.symm
  | case5 a left b right => exact List.perm_append_comm

theorem keeps_merge (compare : RowComparison) (left right : List Tuple) :
    Keeps id (left ++ right) (compare.merge left right) := by
  rw [merge]
  split
  · exact keeps_mergeUp compare left right
  · refine (keeps_mergeDown compare left.reverse right.reverse).reverse.of_perm ?_
    exact left.reverse_perm.append right.reverse_perm

theorem keeps_sortHalves (compare : RowComparison) (rows : List Tuple) :
    Keeps id rows (compare.sortHalves rows) := by
  rw [sortHalves, List.splitAt_eq]
  refine keeps_onlyRead_bind fun left hleft => keeps_onlyRead_bind fun right hright => ?_
  have hhalves : (left ++ right).Perm rows := by
    have hperm := (perm_of_sort hleft).append (perm_of_sort hright)
    rwa [List.take_append_drop] at hperm
  cases hsort : compare.sort (left ++ right) with
  | error failure => exact hhalves
  | ok sorted => exact (perm_of_sort hsort).trans hhalves

/-! ### Runs -/

variable {sortsBlocks : Bool} {least : Nat} {sortRows : List Tuple → Attempt (List Tuple)}

theorem keeps_takeRun (compare : RowComparison) (sortsBlocks : Bool) (least : Nat)
    (rows : List Tuple) :
    Keeps (fun taken => taken.1.rows ++ taken.2) rows (compare.takeRun sortsBlocks least rows) := by
  rw [takeRun]
  simp only [List.splitAt_eq]
  refine keeps_onlyRead_bind fun (length, descends) _ => ?_
  split
  · have hrun : (if descends then (rows.take length).reverse else rows.take length).Perm
        (rows.take length) := by
      split
      · exact List.reverse_perm _
      · exact .refl _
    have hperm := hrun.append_right (rows.drop length)
    rwa [List.take_append_drop] at hperm
  · split
    · have hblock :=
        (keeps_sortHalves compare (rows.take blockLength)).between [] (rows.drop blockLength)
      rw [List.nil_append, List.take_append_drop] at hblock
      exact hblock.bind fun block _ hperm => hperm
    · exact .of_eq (List.take_append_drop least rows)

/-- A run that is taken has a row at least. -/
theorem length_lt_of_takeRun {taken : Run × List Tuple} (hrows : rows ≠ []) (hleast : 0 < least)
    (htake : compare.takeRun sortsBlocks least rows = .ok taken) :
    taken.2.length < rows.length := by
  have hpos : 0 < rows.length := List.length_pos_of_ne_nil hrows
  have hdrop : ∀ n, 0 < n → (rows.drop n).length < rows.length := by
    intro n hn
    rw [List.length_drop]
    omega
  rw [takeRun] at htake
  simp only [List.splitAt_eq] at htake
  obtain ⟨⟨length, descends⟩, -, htake⟩ := exists_of_bind_eq_ok htake
  split at htake
  · next hlength =>
    rw [← Except.ok.inj htake]
    exact hdrop length (Nat.lt_of_lt_of_le hleast hlength)
  · split at htake
    · obtain ⟨block, -, htake⟩ := exists_of_bind_eq_ok htake
      rw [← Except.ok.inj htake]
      exact hdrop blockLength (by decide)
    · rw [← Except.ok.inj htake]
      exact hdrop least hleast

theorem keeps_settle (hsort : ∀ rows, Keeps id rows (sortRows rows)) (run : Run) :
    Keeps id run.rows (run.settle sortRows) := by
  rw [Run.settle]
  split
  · exact .refl run.rows
  · exact hsort run.rows

theorem keeps_join (hsort : ∀ rows, Keeps id rows (sortRows rows)) (compare : RowComparison)
    (left right : Run) :
    Keeps Run.rows (left.rows ++ right.rows) (compare.join sortRows left right) := by
  rw [join]
  split
  · refine ((keeps_settle hsort left).between [] right.rows).bind fun leftRows _ hleft => ?_
    have hright := (keeps_settle hsort right).between leftRows []
    rw [List.append_nil] at hright
    refine (hright.of_perm hleft).bind fun rightRows _ hrows => ?_
    rw [List.append_nil] at hrows
    exact ((keeps_merge compare leftRows rightRows).of_perm hrows).bind fun merged _ hperm => hperm
  · exact .refl _

@[simp]
theorem standing_cons (run : Run) (depth : Nat) (before : List (Run × Nat)) :
    standing ((run, depth) :: before) = standing before ++ run.rows := by
  simp [standing]

theorem keeps_joinBack (hsort : ∀ rows, Keeps id rows (sortRows rows)) (compare : RowComparison)
    (depth : Nat) (last : Run) (before : List (Run × Nat)) :
    Keeps (fun joined => standing joined.2 ++ joined.1.rows) (standing before ++ last.rows)
      (compare.joinBack sortRows depth last before) := by
  induction before generalizing last with
  | nil => exact .refl _
  | cons entry before ih =>
    obtain ⟨left, leftDepth⟩ := entry
    rw [joinBack]
    split
    · have hjoin := (keeps_join hsort compare left last).between (standing before) []
      rw [List.append_nil, ← List.append_assoc, ← standing_cons left leftDepth] at hjoin
      refine hjoin.bind fun joined _ hperm => ?_
      rw [List.append_nil] at hperm
      exact (ih joined).of_perm hperm
    · exact .refl _

/-- No run parts above the depth of nothing, so that all of them are joined. -/
theorem eq_nil_of_joinBack_zero {last : Run} {before : List (Run × Nat)}
    {joined : Run × List (Run × Nat)}
    (hjoin : compare.joinBack sortRows 0 last before = .ok joined) : joined.2 = [] := by
  induction before generalizing last with
  | nil => exact congrArg Prod.snd (Except.ok.inj hjoin).symm
  | cons entry before ih =>
    rw [joinBack, if_pos (Nat.zero_le _)] at hjoin
    obtain ⟨next, -, hjoin⟩ := exists_of_bind_eq_ok hjoin
    exact ih hjoin

theorem nearRoot_pos {n : Nat} (hn : 4 ≤ n) : 0 < nearRoot n := by
  have hlog : 2 ≤ n.log2 := (Nat.le_log2 (by omega)).mpr hn
  have hstart : 2 ≤ Nat.pow 2 ((1 + n.log2) / 2) := by
    calc 2 = Nat.pow 2 1 := rfl
      _ ≤ Nat.pow 2 ((1 + n.log2) / 2) := Nat.pow_le_pow_right (by decide) (by omega)
  rw [nearRoot]
  exact Nat.div_pos (Nat.le_trans hstart (Nat.le_add_right _ _)) (by decide)

theorem leastRunLength_pos {count : Nat} (hcount : 0 < count) : 0 < leastRunLength count := by
  rw [leastRunLength]
  split
  · omega
  · exact nearRoot_pos (by omega)

/-- At the end all runs are joined, whatever stands before the last one. -/
theorem keeps_joinBack_zero (hsort : ∀ rows, Keeps id rows (sortRows rows))
    (compare : RowComparison) (last : Run) (before : List (Run × Nat)) :
    Keeps Run.rows (standing before ++ last.rows)
      (compare.joinBack sortRows 0 last before >>= fun joined => .ok joined.1) := by
  refine (keeps_joinBack hsort compare 0 last before).bind fun joined hjoin hperm => ?_
  rwa [eq_nil_of_joinBack_zero hjoin] at hperm

/-- There are enough steps as long as there are as many as rows, since each of them takes a row. -/
theorem keeps_joinRuns (hsort : ∀ rows, Keeps id rows (sortRows rows)) (compare : RowComparison)
    (sortsBlocks : Bool) {count steps : Nat} (hsteps : steps ≤ count) (before : List (Run × Nat))
    (last : Run) {rest : List Tuple} (hrest : rest.length ≤ steps) :
    Keeps Run.rows (standing before ++ last.rows ++ rest)
      (compare.joinRuns sortRows sortsBlocks count steps before last rest) := by
  induction steps generalizing before last rest with
  | zero =>
    obtain rfl := List.length_eq_zero_iff.mp (Nat.le_zero.mp hrest)
    rw [joinRuns, List.append_nil]
    · exact keeps_joinBack_zero hsort compare last before
    · simp
  | succ steps ih =>
    cases rest with
    | nil =>
      rw [joinRuns, List.append_nil]
      · exact keeps_joinBack_zero hsort compare last before
      · simp
    | cons row rest =>
      have hleast : 0 < leastRunLength count := leastRunLength_pos (by omega)
      have htake := (keeps_takeRun compare sortsBlocks (leastRunLength count) (row :: rest)).between
        (standing before ++ last.rows) []
      rw [List.append_nil] at htake
      rw [joinRuns]
      refine htake.bind fun (next, left) hnext hperm => ?_
      have hleft : left.length < (row :: rest).length :=
        length_lt_of_takeRun (List.cons_ne_nil row rest) hleast (eq_ok_of_between hnext)
      rw [List.append_nil, ← List.append_assoc] at hperm
      dsimp only
      generalize partingDepth _ _ _ _ = depth
      have hjoin := (keeps_joinBack hsort compare depth last before).between [] (next.rows ++ left)
      rw [List.nil_append, ← List.append_assoc] at hjoin
      refine (hjoin.of_perm hperm).bind fun (joined, before) _ hperm => ?_
      rw [List.nil_append, ← List.append_assoc, ← standing_cons] at hperm
      rw [List.length_cons] at hrest hleft
      exact (ih (by omega) _ next (by omega)).of_perm hperm

theorem keeps_sortRuns (hsort : ∀ rows, Keeps id rows (sortRows rows)) (compare : RowComparison)
    (sortsBlocks : Bool) (rows : List Tuple) :
    Keeps id rows (compare.sortRuns sortRows sortsBlocks rows) := by
  rw [sortRuns]
  refine (keeps_takeRun compare sortsBlocks _ rows).bind fun (first, rest) _ hperm => ?_
  have hrest : rest.length ≤ rows.length := by
    rw [← hperm.length_eq, List.length_append]
    exact Nat.le_add_left _ _
  have hjoin := keeps_joinRuns hsort compare sortsBlocks (Nat.le_refl rows.length) [] first hrest
  refine (hjoin.of_perm hperm).bind fun run _ hrun => ?_
  exact (keeps_settle hsort run).of_perm hrun

/-! ### Parting at a pivot -/

theorem perm_of_part {goesLeft : Tuple → Outcome Bool} {pivot : Nat} {pivotGoesLeft : Bool}
    {parts : List Tuple × List Tuple} (hpart : part goesLeft pivot pivotGoesLeft rows = .ok parts) :
    (parts.1 ++ parts.2).Perm rows := by
  rw [part] at hpart
  obtain ⟨asked, hasked, hparts⟩ := bind_eq_ok_iff.mp hpart
  have hrows : asked.map (·.1) = rows := by
    have hkept : asked.map (·.1) = rows.zipIdx.map (·.1) := by
      refine map_of_mapM_eq_ok ?_ hasked
      rintro ⟨row, index⟩ entry hentry
      dsimp only at hentry
      split at hentry
      · rw [← Except.ok.inj hentry]
      · obtain ⟨goes, -, rfl⟩ := map_eq_ok_iff.mp hentry
        rfl
    rw [hkept, List.zipIdx_map_fst]
  rw [List.partition_eq_filter_filter] at hparts
  rw [← Except.ok.inj hparts, ← List.map_append, ← hrows]
  exact (List.filter_append_perm _ asked).map _

theorem perm_of_partLess {floor? : Option Tuple} {index : Nat} {pivot : Tuple}
    {parts : List Tuple × List Tuple}
    (hpart : compare.partLess floor? index pivot rows = .ok parts) :
    (parts.1 ++ parts.2).Perm rows := by
  rw [partLess] at hpart
  obtain ⟨isFloor, -, hpart⟩ := bind_eq_ok_iff.mp hpart
  split at hpart
  · rw [← Except.ok.inj hpart]
    exact .refl rows
  · exact perm_of_part hpart

theorem keeps_sortParts (compare : RowComparison) (limit : Nat) (floor? : Option Tuple)
    (rows : List Tuple) : Keeps id rows (compare.sortParts limit floor? rows) := by
  induction limit generalizing floor? rows with
  | zero =>
    rw [sortParts]
    split
    · exact keeps_sortHalves compare rows
    · exact keeps_sortRuns keeps_ok compare true rows
  | succ limit ih =>
    rw [sortParts]
    split
    · exact keeps_sortHalves compare rows
    · refine keeps_onlyRead_bind fun index _ => ?_
      refine keeps_onlyRead_bind fun (less, others) hless => ?_
      have hparts := perm_of_partLess hless
      dsimp only
      split
      · refine keeps_onlyRead_bind fun (equal, greater) hequal => ?_
        have hgreater := (ih none greater).between equal []
        rw [List.append_nil] at hgreater
        refine (hgreater.of_perm (perm_of_part hequal)).bind fun sorted _ hsorted => ?_
        rwa [List.append_nil] at hsorted
      · have hothers := (ih (some (rows.getD index [])) others).between less []
        rw [List.append_nil] at hothers
        refine (hothers.of_perm hparts).bind fun others _ hperm => ?_
        rw [List.append_nil] at hperm
        have hless := (ih floor? less).between [] others
        rw [List.nil_append] at hless
        exact (hless.of_perm hperm).bind fun less _ hsorted => hsorted

theorem keeps_sortInPlace (compare : RowComparison) (rows : List Tuple) :
    Keeps id rows (compare.sortInPlace rows) := by
  rw [sortInPlace]
  split
  · exact keeps_sinkAll compare [] rows
  · exact keeps_sortRuns (fun rows => keeps_sortParts compare _ none rows) compare _ rows

/-- Wherever a sort in place comes to an end, every row is still there. -/
theorem leftBySort_perm (compare : RowComparison) (rows : List Tuple) :
    (compare.leftBySort rows).Perm rows := by
  have hkeeps := keeps_sortInPlace compare rows
  rw [leftBySort]
  generalize compare.sortInPlace rows = attempt at hkeeps
  cases attempt with
  | error left => exact hkeeps
  | ok sorted => exact hkeeps

end RowComparison

namespace TupleList

theorem sortByKeys_cases (l : TupleList) (keys : List SortKey) :
    (l.sortByKeys keys).1 = l ∨ ∃ rows, rows.Perm l.rows ∧
      (l.sortByKeys keys).1 = { l with storage := l.storage.refill rows } := by
  rw [sortByKeys]
  split
  · exact .inl rfl
  · split
    · next hsort => exact .inr ⟨_, RowComparison.perm_of_sort hsort, rfl⟩
    · exact .inl rfl
    · exact .inr ⟨_, RowComparison.leftBySort_perm (SortKey.compareAll keys) l.rows, rfl⟩

/-- Whether or not a sort comes to its end, the list stands for its rows in some order. -/
theorem Represents.sortByKeys {l : TupleList} {p : PlainList} (hl : l.Represents p)
    (keys : List SortKey) :
    ∃ rows, rows.Perm p.rows ∧ (l.sortByKeys keys).1.Represents { p with rows } := by
  obtain heq | ⟨rows, hperm, heq⟩ := l.sortByKeys_cases keys
  · rw [heq]
    exact ⟨p.rows, .refl p.rows, hl⟩
  · rw [heq]
    rw [hl.holds.rows_eq] at hperm
    exact ⟨rows, hperm, hl.refill fun _ => hperm.mem_iff.mp⟩

end TupleList

end CubeCalc
