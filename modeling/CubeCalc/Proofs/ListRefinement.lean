import CubeCalc.Proofs.Indexed
import CubeCalc.Proofs.PlainList
/-!
# Tuple lists refine plain lists

A tuple list represents a plain list if its storage stands for the rows. Every way of making a list
makes one that does, every step keeps it, and what is read from the list is read from the rows.
-/

namespace CubeCalc

open Outcome

/-- The list stands for a plain list, whatever it is stored in. -/
structure TupleList.Represents (l : TupleList) (p : PlainList) : Prop where
  holds : l.Holds p.rows
  arity_eq : l.arity = p.arity
  isMutable_eq : l.isMutable = p.isMutable
  limit_eq : l.limit = p.limit

namespace TupleList.Represents

variable {l : TupleList} {p : PlainList} {row : Tuple} {index : Nat}

theorem length_eq (hl : l.Represents p) : l.length = p.rows.length := hl.holds.length_eq

theorem row_length_eq (hl : l.Represents p) (hrow : row ∈ p.rows) : row.length = p.arity :=
  (hl.holds.uniform row hrow).trans hl.arity_eq

/-! ### Checks -/

theorem checkMutable_eq (hl : l.Represents p) : l.checkMutable = p.checkMutable := by
  rw [checkMutable, PlainList.checkMutable, hl.isMutable_eq]

theorem checkArity_eq (hl : l.Represents p) : l.checkArity row.length = p.checkRow row := by
  rw [checkArity, PlainList.checkRow, hl.arity_eq]

theorem room_eq (hl : l.Represents p) (hp : p.IsCountable) :
    l.storage.room l.limit = p.checkRoom := by
  rw [PlainList.IsCountable, ← hl.arity_eq] at hp
  have hcount : l.limit.clamp p.rows.length * l.arity < wordBound :=
    Nat.lt_of_le_of_lt (Nat.mul_le_mul_right _ (l.limit.clamp_le _)) hp
  rw [hl.holds.room_eq hcount, PlainList.checkRoom, hl.limit_eq]

theorem length_of_checkRow (hrow : p.checkRow row = .ok ()) : row.length = p.arity := by
  by_contra hne
  simp [PlainList.checkRow, hne, fail] at hrow

theorem lt_of_checkIndex {places : Nat} (hindex : PlainList.checkIndex index places = .ok ()) :
    index < places := by
  by_contra hle
  simp [PlainList.checkIndex, hle, fail] at hindex

/-! ### Making lists -/

theorem of_unary (members : Array Member) (isMutable : Bool) (limit : RowLimit) :
    Represents ⟨.unary members, isMutable, limit⟩
      ⟨1, members.toList.map fun m => [m], isMutable, limit⟩ :=
  ⟨.unary rfl, rfl, rfl, rfl⟩

/-- Rows of one arity are packed one behind the other, whatever is reserved behind them. -/
theorem of_packed {arity : Nat} (harity : 0 < arity) {rows : List Tuple}
    (hrows : ∀ row ∈ rows, row.length = arity) (capacity : Nat) (isMutable : Bool)
    (limit : RowLimit) :
    Represents ⟨.packed ⟨arity, rows.flatten.toArray, capacity⟩, isMutable, limit⟩
      ⟨arity, rows, isMutable, limit⟩ :=
  ⟨.packed ⟨harity, List.toList_toArray, hrows⟩, rfl, rfl, rfl⟩

theorem of_delegating {arity : Nat} {rows : List Tuple} (hrows : ∀ row ∈ rows, row.length = arity)
    (isMutable : Bool) (limit : RowLimit) :
    Represents ⟨.delegating arity rows.toArray, isMutable, limit⟩ ⟨arity, rows, isMutable, limit⟩ :=
  ⟨.delegating List.toList_toArray hrows, rfl, rfl, rfl⟩

theorem new (arity : Nat) (limit : RowLimit) :
    (new arity limit).Represents ⟨arity, [], true, limit⟩ :=
  ⟨(new_holds arity limit).1, (new_holds arity limit).2, rfl, rfl⟩

theorem empty (arity : Nat) : (empty arity).Represents ⟨arity, [], false, .unbounded⟩ :=
  ⟨(new_holds arity .unbounded).1, (new_holds arity .unbounded).2, rfl, rfl⟩

theorem withCapacity {arity count : Nat} {limit : RowLimit}
    (hmake : withCapacity arity count limit = .ok l) : l.Represents ⟨arity, [], true, limit⟩ := by
  obtain ⟨hholds, harity, hmutable, hlimit⟩ := (withCapacity_meets arity count limit).of_ok hmake
  exact ⟨hholds, harity, hmutable, hlimit⟩

theorem emptied (hl : l.Represents p) {count : Nat} {other : TupleList}
    (hmake : l.emptied count = .ok other) : other.Represents ⟨p.arity, [], true, p.limit⟩ := by
  rw [← hl.arity_eq, ← hl.limit_eq]
  exact withCapacity hmake

theorem packed {arity count : Nat} {limit : RowLimit} (hmake : packed arity count limit = .ok l) :
    l.Represents ⟨arity, [], true, limit⟩ := by
  obtain ⟨p, hp, hl⟩ := bind_eq_ok_iff.mp hmake
  obtain ⟨hstores, harity⟩ := (packed_withCapacity_meets arity count limit).of_ok hp
  rw [← Except.ok.inj hl]
  exact ⟨.packed hstores, harity, rfl, rfl⟩

theorem delegating (arity : Nat) (limit : RowLimit) :
    (delegating arity limit).Represents ⟨arity, [], true, limit⟩ :=
  of_delegating (by simp) true limit

theorem ofMembers {members : List Member} {limit : RowLimit}
    (hmake : ofMembers members limit = .ok l) :
    l.Represents ⟨1, members.map fun m => [m], true, limit⟩ := by
  obtain ⟨-, -, hl⟩ := bind_eq_ok_iff.mp hmake
  rw [← Except.ok.inj hl]
  exact ⟨.unary (by simp), rfl, rfl, rfl⟩

theorem ofRows {arity : Nat} {rows : List Tuple} {limit : RowLimit}
    (hmake : ofRows arity rows limit = .ok l) : l.Represents ⟨arity, rows, true, limit⟩ := by
  rw [TupleList.ofRows] at hmake
  split at hmake
  · simp [fail] at hmake
  · next hnone =>
    obtain ⟨-, -, hl⟩ := bind_eq_ok_iff.mp hmake
    rw [← Except.ok.inj hl]
    refine of_delegating (fun row hrow => ?_) true limit
    simpa using List.find?_eq_none.mp hnone row hrow

theorem emptyTuples (count : Nat) :
    (emptyTuples count).Represents ⟨0, List.replicate count [], true, .unbounded⟩ := by
  refine ⟨.delegating Array.toList_replicate fun row hrow => ?_, rfl, rfl, rfl⟩
  rw [(List.mem_replicate.mp hrow).2]
  rfl

/-! ### Steps -/

/-- A storage that stands for other rows represents them under the same flag and limit. -/
theorem of_stores (hl : l.Represents p) {storage : Storage} {rows : List Tuple}
    (hstores : storage.Stores rows) (harity : storage.arity = l.arity) :
    Represents { l with storage } { p with rows } :=
  ⟨hstores, harity.trans hl.arity_eq, hl.isMutable_eq, hl.limit_eq⟩

theorem push (hl : l.Represents p) (hp : p.IsCountable) (row : Tuple) :
    Matches Represents (l.push row) (p.push row) := by
  rw [TupleList.push, PlainList.push, hl.checkMutable_eq, hl.checkArity_eq]
  refine .bind_self _ fun _ _ => .bind_self _ fun _ hrow => ?_
  obtain ⟨storage, hstores, harity, hpush⟩ := Storage.Stores.push_eq hl.holds
    ((length_of_checkRow hrow).trans hl.arity_eq.symm) l.limit
  rw [hpush, hl.room_eq hp, bind_assoc]
  exact .bind_self _ fun _ _ => .ok (hl.of_stores hstores harity)

theorem insert (hl : l.Represents p) (hp : p.IsCountable) (index : Nat) (row : Tuple) :
    Matches Represents (l.insert index row) (p.insert index row) := by
  rw [TupleList.insert, PlainList.insert, hl.checkMutable_eq, hl.checkArity_eq, hl.length_eq]
  refine .bind_self _ fun _ _ => .bind_self _ fun _ hrow => .bind_self _ fun _ hindex => ?_
  obtain ⟨storage, hstores, harity, hinsert⟩ := Storage.Stores.insert_eq hl.holds
    ((length_of_checkRow hrow).trans hl.arity_eq.symm) (Nat.le_of_lt_succ (lt_of_checkIndex hindex))
    l.limit
  rw [hinsert, hl.room_eq hp, bind_assoc]
  exact .bind_self _ fun _ _ => .ok (hl.of_stores hstores harity)

theorem row_eq (hl : l.Represents p) (hindex : index < p.rows.length) :
    l.storage.row index = p.rows.getD index [] := by
  rw [Storage.Stores.row_eq hl.holds hindex, List.getD_eq_getElem?_getD,
    List.getElem?_eq_getElem hindex, Option.getD_some]

theorem set (hl : l.Represents p) (index : Nat) (row : Tuple) :
    Matches (fun a b => a.1 = b.1 ∧ Represents a.2 b.2) (l.set index row) (p.set index row) := by
  rw [TupleList.set, PlainList.set, hl.checkMutable_eq, hl.checkArity_eq, hl.length_eq]
  refine .bind_self _ fun _ _ => .bind_self _ fun _ hrow => .bind_self _ fun _ hindex => ?_
  obtain ⟨storage, hstores, harity, hset⟩ := Storage.Stores.set_eq hl.holds
    ((length_of_checkRow hrow).trans hl.arity_eq.symm) (lt_of_checkIndex hindex)
  rw [hset]
  exact .ok ⟨hl.row_eq (lt_of_checkIndex hindex), hl.of_stores hstores harity⟩

theorem remove (hl : l.Represents p) (index : Nat) :
    Matches (fun a b => a.1 = b.1 ∧ Represents a.2 b.2) (l.remove index) (p.remove index) := by
  rw [TupleList.remove, PlainList.remove, hl.checkMutable_eq, hl.length_eq]
  refine .bind_self _ fun _ _ => .bind_self _ fun _ hindex => ?_
  obtain ⟨hstores, harity⟩ := Storage.Stores.remove hl.holds index
  exact .ok ⟨hl.row_eq (lt_of_checkIndex hindex), hl.of_stores hstores harity⟩

/-- Rows that are there already can be put in the place of all rows. -/
theorem refill (hl : l.Represents p) {rows : List Tuple} (hrows : ∀ row ∈ rows, row ∈ p.rows) :
    Represents { l with storage := l.storage.refill rows } { p with rows } := by
  obtain ⟨hstores, harity⟩ := Storage.Stores.refill hl.holds fun row hrow =>
    hl.holds.uniform row (hrows row hrow)
  exact hl.of_stores hstores harity

theorem clear (hl : l.Represents p) : Matches Represents l.clear p.clear := by
  rw [TupleList.clear, PlainList.clear, hl.checkMutable_eq]
  exact .bind_self _ fun _ _ => .ok (hl.refill (by simp))

theorem keepRows_eq {σ : Type} (keep : σ → Tuple → Bool × σ) (state : σ) (rows : List Tuple) :
    keepRows (fun state row => .ok (keep state row)) state rows =
      .ok (PlainList.keptRows keep state rows) := by
  induction rows generalizing state with
  | nil => rfl
  | cons row rest ih =>
    rw [keepRows, Outcome.ok_bind]
    simp only [ih, Outcome.ok_bind]
    rfl

theorem keptRows_sublist {σ : Type} (keep : σ → Tuple → Bool × σ) (state : σ) (rows : List Tuple) :
    (PlainList.keptRows keep state rows).1.Sublist rows := by
  induction rows generalizing state with
  | nil => exact .slnil
  | cons row rest ih =>
    rw [PlainList.keptRows]
    simp only
    split
    · exact (ih _).cons_cons row
    · exact (ih _).cons row

theorem retain {σ : Type} (hl : l.Represents p) (keep : σ → Tuple → Bool × σ) (state : σ) :
    Matches (fun a b => Represents a.1 b.1 ∧ a.2 = b.2)
      (l.retain (fun state row => .ok (keep state row)) state) (p.retain keep state) := by
  rw [TupleList.retain, PlainList.retain, hl.checkMutable_eq, hl.holds.rows_eq, keepRows_eq]
  exact .bind_self _ fun _ _ => .ok ⟨hl.refill (keptRows_sublist keep state p.rows).subset, rfl⟩

theorem sortBy (hl : l.Represents p) {compare : Tuple → Tuple → Ordering}
    (hcompare : Std.TransCmp compare) :
    Matches Represents (l.sortBy compare) (p.sortBy compare) := by
  rw [TupleList.sortBy, PlainList.sortBy, hl.checkMutable_eq, hl.holds.rows_eq,
    mergeSort_isLE_eq hcompare]
  exact .bind_self _ fun _ _ => .ok (hl.refill fun _ => (List.mem_insertionSort _).mp)

theorem fixed (hl : l.Represents p) : l.fixed.Represents { p with isMutable := false } :=
  ⟨hl.holds, hl.arity_eq, rfl, hl.limit_eq⟩

theorem copy (hl : l.Represents p) : l.copy.Represents { p with isMutable := true } :=
  ⟨hl.holds, hl.arity_eq, rfl, hl.limit_eq⟩

end TupleList.Represents

/-! ### Whole sources -/

namespace PlainList

variable {p longer : PlainList} {row : Tuple} {rows : List Tuple}

theorem push_eq_ok (hpush : p.push row = .ok longer) :
    longer = { p with rows := p.rows ++ [row] } := by
  rw [push] at hpush
  obtain ⟨-, -, hpush⟩ := bind_eq_ok_iff.mp hpush
  obtain ⟨-, -, hpush⟩ := bind_eq_ok_iff.mp hpush
  obtain ⟨-, -, hpush⟩ := bind_eq_ok_iff.mp hpush
  exact (Except.ok.inj hpush).symm

/-- To extend a list is to append as many of the rows as are taken. -/
theorem exists_extend_eq (p : PlainList) (rows : List Tuple) :
    ∃ taken, taken <+: rows ∧ (p.extend rows).1 = { p with rows := p.rows ++ taken } := by
  induction rows generalizing p with
  | nil => exact ⟨[], List.prefix_refl _, by simp [extend]⟩
  | cons row rest ih =>
    rw [extend]
    cases hpush : p.push row with
    | error failure => exact ⟨[], List.nil_prefix, by simp⟩
    | ok longer =>
      obtain ⟨taken, htaken, hextend⟩ := ih longer
      refine ⟨row :: taken, (List.prefix_cons_inj row).mpr htaken, ?_⟩
      rw [push_eq_ok hpush] at hextend ⊢
      simpa using hextend

/-- A list that has been extended takes up no fewer slots. -/
theorem slots_le_extend (p : PlainList) (rows : List Tuple) :
    p.slots ≤ (p.extend rows).1.slots := by
  obtain ⟨taken, -, hextend⟩ := p.exists_extend_eq rows
  rw [hextend, slots, slots]
  apply Nat.mul_le_mul_right
  rw [List.length_append]
  exact Nat.le_add_right _ _

theorem IsCountable.of_extend (hcount : (p.extend rows).1.IsCountable) : p.IsCountable :=
  Nat.lt_of_le_of_lt (p.slots_le_extend rows) hcount

end PlainList

/-- Rows of a sequence are taken over one by one, up to the first that is refused. -/
theorem TupleList.Represents.addRows {source : TupleSource} :
    ∀ {rows : List Tuple} {l : TupleList} {p : PlainList}, l.Represents p →
      (p.extend rows).1.IsCountable → (∀ row ∈ rows, row.length = source.arity) →
      (l.addRows source rows).2 = (p.extend rows).2 ∧
        (l.addRows source rows).1.Represents (p.extend rows).1
  | [], _, _, hl, _, _ => ⟨rfl, hl⟩
  | row :: rest, l, p, hl, hcount, hrows => by
    rw [List.forall_mem_cons] at hrows
    have hpush := hl.push hcount.of_extend row
    rw [TupleList.addRows, TupleSource.addTo_eq hrows.1]
    rw [PlainList.extend] at hcount ⊢
    generalize l.push row = pushed at hpush
    generalize p.push row = plain at hpush hcount
    cases hpush with
    | failed failure => exact ⟨rfl, hl⟩
    | ok hlonger => exact hlonger.addRows hcount hrows.2

/-! ### Reading -/

/-- What is read from a list, by position, by cursor or as a whole, is read from the rows. -/
structure TupleList.ReadsAs (l : TupleList) (p : PlainList) : Prop where
  arity_eq : l.arity = p.arity
  isMutable_eq : l.isMutable = p.isMutable
  limit_eq : l.limit = p.limit
  length_eq : l.length = p.rows.length
  isEmpty_eq : l.isEmpty = p.rows.isEmpty
  rows_eq : l.rows = p.rows
  row?_eq : ∀ index, l.row? index = p.rows[index]?
  indexOf?_eq : ∀ row, l.indexOf? row = p.rows.findIdx? (· == row)
  contains_eq : ∀ row, l.contains row = p.rows.any (· == row)
  beq_eq : ∀ other : TupleList, (l == other) = (p.arity == other.arity && p.rows == other.rows)
  member_eq : ∀ (index column : Nat) (hindex : index < p.rows.length)
    (hcolumn : column < p.rows[index].length),
    Indexed.member l column index = .ok p.rows[index][column]
  tuple_eq : ∀ index, Indexed.row? l index = .ok p.rows[index]?
  tuples_eq : Indexed.rows l = .ok p.rows
  forward_eq : ∀ index,
    (Cursor.forward (Cursor.forwardBy (PositionCursor.start l) index)).1 =
      .ok (decide (index < p.rows.length))
  current_eq : ∀ (index : Nat) (hindex : index < p.rows.length),
    Cursor.current (Cursor.forwardBy (PositionCursor.start l) (index + 1)) = .ok p.rows[index]

namespace TupleList.Represents

variable {l : TupleList} {p : PlainList} {index : Nat}

theorem indexOf?_eq (hl : l.Represents p) (row : Tuple) :
    l.indexOf? row = p.rows.findIdx? (· == row) := by
  rw [TupleList.indexOf?, hl.arity_eq, hl.holds.rows_eq]
  split
  · rfl
  · next hlength =>
    symm
    rw [List.findIdx?_eq_none_iff]
    intro other hother
    rw [Bool.eq_false_iff]
    intro hequal
    exact hlength ((List.length_eq_of_beq hequal).symm.trans (hl.row_length_eq hother))

theorem member_eq (hl : l.Represents p) (hp : p.IsCountable) {column : Nat}
    (hindex : index < p.rows.length) (hcolumn : column < p.rows[index].length) :
    Indexed.member l column index = .ok p.rows[index][column] := by
  rw [PlainList.IsCountable, ← hl.arity_eq] at hp
  exact Storage.Stores.member_eq hl.holds hindex hcolumn hp

theorem shows (hl : l.Represents p) (hp : p.IsCountable) : Indexed.Shows l p.arity p.rows where
  arity_eq := hl.arity_eq
  length_eq := hl.length_eq
  uniform _ := hl.row_length_eq
  member_eq _ _ := hl.member_eq hp

/-- Whoever reads the list reads the rows. -/
theorem readsAs (hl : l.Represents p) (hp : p.IsCountable) : l.ReadsAs p where
  arity_eq := hl.arity_eq
  isMutable_eq := hl.isMutable_eq
  limit_eq := hl.limit_eq
  length_eq := hl.length_eq
  isEmpty_eq := by rw [isEmpty, hl.length_eq]; cases p.rows <;> rfl
  rows_eq := hl.holds.rows_eq
  row?_eq index := by
    rw [row?, hl.length_eq]
    split
    · next hindex =>
      rw [Storage.Stores.row_eq hl.holds hindex, List.getElem?_eq_getElem hindex]
    · next hindex => rw [List.getElem?_eq_none (Nat.le_of_not_lt hindex)]
  indexOf?_eq := hl.indexOf?_eq
  contains_eq row := by rw [contains, hl.indexOf?_eq, List.findIdx?_isSome]
  beq_eq other := by
    change (l.arity == other.arity && l.rows == other.rows) = _
    rw [hl.arity_eq, hl.holds.rows_eq]
  member_eq _ _ hindex hcolumn := hl.member_eq hp hindex hcolumn
  tuple_eq := (hl.shows hp).row?_eq
  tuples_eq := (hl.shows hp).rows_eq
  forward_eq := (hl.shows hp).yields.runs
  current_eq := (hl.shows hp).yields.current_eq

end TupleList.Represents

/-! ### Runs -/

namespace ListStep

variable {l : TupleList} {p : PlainList}

theorem settle_matches {o : Outcome (TupleList × Answer)} {plain : Outcome (PlainList × Answer)}
    (hl : l.Represents p) (h : Matches (fun a b => a.1.Represents b.1 ∧ a.2 = b.2) o plain) :
    (settle l o).1.Represents (settle p plain).1 ∧ (settle l o).2 = (settle p plain).2 := by
  cases h with
  | failed failure => exact ⟨hl, rfl⟩
  | ok h => exact ⟨h.1, congrArg Except.ok h.2⟩

/-- A step answers as the step on the plain list does, and comes to a list that represents what that
comes to. -/
theorem run_represents (hl : l.Represents p) (step : ListStep) (hp : p.IsCountable)
    (hafter : (step.runPlain p).1.IsCountable) :
    (step.run l).1.Represents (step.runPlain p).1 ∧ (step.run l).2 = (step.runPlain p).2 := by
  cases step with
  | push row => exact settle_matches hl ((hl.push hp row).map fun _ _ h => ⟨h, rfl⟩)
  | addCurrent cursor row hcurrent hrow =>
    have hadd : l.addCurrent cursor = l.push row := by
      rw [TupleList.addCurrent, hcurrent, ← hrow, TupleList.addRow_eq]
    simp only [run, runPlain, hadd]
    exact settle_matches hl ((hl.push hp row).map fun _ _ h => ⟨h, rfl⟩)
  | extendFrom source hsource =>
    have hextend := hl.addRows hafter hsource
    simp only [run, runPlain, TupleList.extendFrom]
    exact ⟨hextend.2, congrArg _ hextend.1⟩
  | set index row =>
    exact settle_matches hl ((hl.set index row).map fun _ _ h => ⟨h.2, by rw [h.1]⟩)
  | insert index row => exact settle_matches hl ((hl.insert hp index row).map fun _ _ h => ⟨h, rfl⟩)
  | remove index =>
    exact settle_matches hl ((hl.remove index).map fun _ _ h => ⟨h.2, by rw [h.1]⟩)
  | clear => exact settle_matches hl (hl.clear.map fun _ _ h => ⟨h, rfl⟩)
  | retain keep state =>
    exact settle_matches hl ((hl.retain keep state).map fun _ _ h => ⟨h.1, by rw [h.2]⟩)
  | sortBy compare hcompare =>
    exact settle_matches hl ((hl.sortBy hcompare).map fun _ _ h => ⟨h, rfl⟩)
  | fix => exact ⟨hl.fixed, rfl⟩
  | copy => exact ⟨hl.copy, rfl⟩

/-- What some steps come to, one after the other, and what each of them answers. -/
def trace {α : Type} (run : α → ListStep → α × Outcome Answer) :
    α → List ListStep → List (α × Outcome Answer)
  | _, [] => []
  | before, step :: rest => run before step :: trace run (run before step).1 rest

end ListStep

/-- All storages implement one list of rows. Over any run of steps, a tuple list answers each step
as the plain list does, and reads like the plain list after it, as long as the members fit into
memory. -/
theorem TupleList.trace_readsAs {l : TupleList} {p : PlainList} (hl : l.Represents p)
    (steps : List ListStep) (hp : p.IsCountable)
    (hcount : ∀ after ∈ ListStep.trace ListStep.runPlain p steps, after.1.IsCountable) :
    List.Forall₂ (fun here plain => here.1.ReadsAs plain.1 ∧ here.2 = plain.2)
      (ListStep.trace ListStep.run l steps) (ListStep.trace ListStep.runPlain p steps) := by
  induction steps generalizing l p with
  | nil => exact .nil
  | cons step rest ih =>
    rw [ListStep.trace, List.forall_mem_cons] at hcount
    obtain ⟨hrepresents, hanswer⟩ := ListStep.run_represents hl step hp hcount.1
    exact .cons ⟨hrepresents.readsAs hcount.1, hanswer⟩ (ih hrepresents hcount.1 hcount.2)

namespace Sales

def allTuple : Tuple := [.all "Time" "All Times", .all "Town" "All Towns"]

/-- There is room for one row only, and none for a row of another arity. -/
def oneRowSteps : List ListStep :=
  [.push allTuple, .push [], .push allTuple, .insert 2 allTuple, .remove 0, .copy]

theorem trace_packed_readsAs :
    List.Forall₂ (fun here plain => here.1.ReadsAs plain.1 ∧ here.2 = plain.2)
      (ListStep.trace ListStep.run ⟨.packed ⟨2, #[], 0⟩, true, .ofInt 1⟩ oneRowSteps)
      (ListStep.trace ListStep.runPlain ⟨2, [], true, .ofInt 1⟩ oneRowSteps) := by
  have hmake : TupleList.packed 2 0 (.ofInt 1) = .ok ⟨.packed ⟨2, #[], 0⟩, true, .ofInt 1⟩ := rfl
  exact TupleList.trace_readsAs (.packed hmake) oneRowSteps (by decide) (by decide)

end Sales

end CubeCalc
