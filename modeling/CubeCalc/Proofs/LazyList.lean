import CubeCalc.Proofs.CrossJoin
import CubeCalc.Proofs.Lookahead
import CubeCalc.Tuple.Lazy
/-!
# Lazy lists

Whoever reads a lazy list by position reads the packed list of all rows of its source, unless there
are more rows than the limit allows. The source is packed at the first such read and left alone from
then on. Walks go over the same rows before and after that, and no change is ever made.
-/

namespace CubeCalc

open Outcome

/-! ### What a source presents -/

namespace TupleSource

variable {source : TupleSource} {rows : List Tuple} {column : Nat}

/-- The source can be walked any number of times, and shows the same rows of its arity each time. -/
inductive Presents : TupleSource → List Tuple → Prop where
  | list {l : TupleList} {p : PlainList} (hl : l.Represents p) (hp : p.IsCountable) :
    Presents (.list l) p.rows
  | product {l r : TupleList} {p q : PlainList} (hl : l.Represents p) (hp : p.IsCountable)
    (hr : r.Represents q) (hq : q.IsCountable) : Presents (.product l r) (pairRows p.rows q.rows)
  | rows {arity : Nat} {rows : List Tuple} (hrows : ∀ row ∈ rows, row.length = arity) :
    Presents (.rows arity rows) rows

namespace Presents

theorem tuples_eq (hsource : source.Presents rows) : source.tuples = rows := by
  cases hsource with
  | list hl => exact hl.holds.rows_eq
  | product hl _ hr => exact productRows_eq hl hr
  | rows => rfl

theorem uniform (hsource : source.Presents rows) : ∀ row ∈ rows, row.length = source.arity := by
  intro row hrow
  cases hsource with
  | list hl => exact (hl.row_length_eq hrow).trans hl.arity_eq.symm
  | product hl _ hr =>
    rw [length_of_mem_pairRows hl hr hrow, arity, hl.arity_eq, hr.arity_eq]
  | rows hrows => exact hrows row hrow

end Presents

end TupleSource

/-! ### Cursors over sources -/

namespace RowCursor

variable {arity : Nat} {rows : List Tuple}

theorem forwardBy_eq {row? : Option Tuple} {i : Nat} (hi : i < rows.length) :
    Cursor.forwardBy (RowCursor.mk arity rows row?) (i + 1) =
      ⟨arity, rows.drop (i + 1), some rows[i]⟩ := by
  induction rows generalizing row? i with
  | nil => cases hi
  | cons row rest ih =>
    cases i with
    | zero => rfl
    | succ i => exact ih (Nat.lt_of_succ_lt_succ hi)

theorem yields_start (hrows : ∀ row ∈ rows, row.length = arity) :
    Cursor.Yields (start arity rows) rows where
  runs := runs_of_forall (fun row hrow => checkLength_eq_ok_iff.mpr (hrows row hrow)) none
  current_eq i hi := by
    rw [start, forwardBy_eq hi]
    rfl

/-- On a row that is as long as the arity says, all columns can be read. -/
theorem columns_eq {row : Tuple} (hrow : row.length = arity) :
    Cursor.columns (RowCursor.mk arity rows (some row)) = .ok row := by
  change (List.range arity).mapM _ = _
  rw [← hrow]
  apply mapM_range_eq
  intro column hcolumn
  have hmember : row[column]? = some row[column] := List.getElem?_eq_getElem hcolumn
  simp only [Cursor.member, member, current, Except.bind, hmember]

end RowCursor

namespace TupleSource.Presents

variable {source : TupleSource} {rows : List Tuple} {column : Nat}

theorem yields (hsource : source.Presents rows) : Cursor.Yields source.cursor rows := by
  cases hsource with
  | @list l p hl hp =>
    have hyields := (hl.shows hp).yields
    refine ⟨fun k => ?_, fun i hi => ?_⟩ <;> rw [cursor, SourceCursor.forwardBy_positions]
    · exact hyields.runs k
    · exact hyields.current_eq i hi
  | @product l r p q hl hp hr hq =>
    have hyields := ProductCursor.yields_start hl hp hr hq
    refine ⟨fun k => ?_, fun i hi => ?_⟩ <;> rw [cursor, SourceCursor.forwardBy_product]
    · exact hyields.runs k
    · exact hyields.current_eq i hi
  | @rows arity rows hrows =>
    have hyields := RowCursor.yields_start hrows
    refine ⟨fun k => ?_, fun i hi => ?_⟩ <;> rw [cursor, SourceCursor.forwardBy_rows]
    · exact hyields.runs k
    · exact hyields.current_eq i hi

theorem offers (hsource : source.Presents rows) : Cursor.Offers source.cursor rows := by
  apply hsource.yields.offers
  intro i hi
  cases hsource with
  | list =>
    rw [cursor, SourceCursor.forwardBy_positions]
    rfl
  | product =>
    rw [cursor, SourceCursor.forwardBy_product]
    rfl
  | rows hrows =>
    rw [cursor, SourceCursor.forwardBy_rows, RowCursor.start, RowCursor.forwardBy_eq hi]
    exact RowCursor.columns_eq (hrows _ (List.getElem_mem hi))

theorem readRows_eq (hsource : source.Presents rows) : source.readRows = .ok rows := by
  rw [readRows, hsource.tuples_eq]
  have hread : ∀ row ∈ rows,
      (source.reach row >>= fun _ => readColumns source.arity row) = .ok (id row) := by
    intro row hrow
    rw [reach_eq (hsource.uniform row hrow), ok_bind, readColumns, ← hsource.uniform row hrow,
      if_pos (Nat.le_refl _), List.take_length]
    rfl
  exact (mapM_eq_ok hread).trans (congrArg _ rows.map_id)

/-- A column that the rows have is read from all of them. -/
theorem exists_readColumn_eq (hsource : source.Presents rows) (hcolumn : column < source.arity) :
    ∃ members, source.readColumn column = .ok members ∧
      members.map some = rows.map fun row => row[column]? := by
  have hmember : ∀ row ∈ rows, row[column]? = some (row.getD column (.all "" "")) := by
    intro row hrow
    have hlt : column < row.length := (hsource.uniform row hrow).symm ▸ hcolumn
    rw [List.getD_eq_getElem?_getD, List.getElem?_eq_getElem hlt, Option.getD_some]
  refine ⟨rows.map fun row => row.getD column (.all "" ""), ?_, ?_⟩
  · rw [readColumn, if_neg (Nat.not_le.mpr hcolumn), hsource.tuples_eq]
    apply mapM_eq_ok
    intro row hrow
    rw [reach_eq (hsource.uniform row hrow), hmember row hrow]
    rfl
  · rw [List.map_map]
    exact List.map_congr_left fun row hrow => (hmember row hrow).symm

/-- The rows are packed if the limit allows for them. -/
theorem materialize_cases (hsource : source.Presents rows) {limit : RowLimit}
    (hcount : limit.clamp rows.length * source.arity < wordBound) :
    (limit.Allows rows.length ∧ rows.length * source.arity < wordBound ∧
      ∃ packed, source.materialize limit = .ok packed ∧
        packed.Represents ⟨source.arity, rows, true, limit⟩) ∨
    ∃ most, limit.rows? = some most ∧ most < rows.length ∧
      source.materialize limit = fail (.limitExceeded (most + 1) most) := by
  have hcases := source.materialize_cases
    (fun row hrow => hsource.uniform row (hsource.tuples_eq ▸ hrow))
    (hsource.tuples_eq.symm ▸ RowLimit.counts_of_clamp hcount)
  rw [hsource.tuples_eq] at hcases
  refine hcases.imp_left fun ⟨hallows, hpacked⟩ => ⟨hallows, ?_, hpacked⟩
  rwa [RowLimit.clamp_eq_of_allows hallows] at hcount

end TupleSource.Presents

/-! ### Calls -/

/-- Reads by position. -/
inductive LazyAccess where
  | list
  | length
  | isEmpty
  | member (column index : Nat)
  | row? (index : Nat)
  | range (start stop : Nat)
  | slice (column : Nat)

namespace LazyAccess

inductive Answer where
  | list (tuples : TupleList)
  | count (length : Nat)
  | flag (isEmpty : Bool)
  | member (m : Member)
  | row? (row? : Option Tuple)
  | view (v : View)

def run (l : LazyList) : LazyAccess → Outcome Answer × LazyList
  | .list => (l.list.1.map .list, l.list.2)
  | .length => (l.length.1.map .count, l.length.2)
  | .isEmpty => (l.isEmpty.1.map .flag, l.isEmpty.2)
  | .member column index => ((l.member column index).1.map .member, (l.member column index).2)
  | .row? index => ((l.row? index).1.map .row?, (l.row? index).2)
  | .range start stop => ((l.range start stop).1.map .view, (l.range start stop).2)
  | .slice column => ((l.column column).1.map .view, (l.column column).2)

/-- The answer of a packed list. A member past the end is refused. -/
def onList (t : TupleList) : LazyAccess → Outcome Answer
  | .list => .ok (.list t)
  | .length => .ok (.count t.length)
  | .isEmpty => .ok (.flag t.isEmpty)
  | .member column index =>
    if t.length ≤ index then fail (.indexOutOfBounds index t.length)
    else (Indexed.member t column index).map .member
  | .row? index => (Indexed.row? t index).map .row?
  | .range start stop => ((View.list t).range? start stop).map .view
  | .slice column => ((View.list t).single? column).map .view

/-- Every read by position asks for the packed list first. -/
theorem run_eq (l : LazyList) (access : LazyAccess) :
    access.run l = (l.list.1.bind access.onList, l.list.2) := by
  have hread : ∀ {α : Type} (reading : TupleList → Outcome α) (answer : α → Answer),
      (l.read reading).1.map answer = l.list.1.bind fun t => (reading t).map answer :=
    fun reading answer => Outcome.map_bind answer l.list.1 reading
  cases access with
  | list => rfl
  | length => exact Prod.ext (hread _ _) rfl
  | isEmpty => exact Prod.ext (hread _ _) rfl
  | member column index =>
    refine Prod.ext ((hread _ _).trans (bind_congr fun t _ => ?_)) rfl
    rw [onList]
    split <;> rfl
  | row? index => exact Prod.ext (hread _ _) rfl
  | range start stop => exact Prod.ext (hread _ _) rfl
  | slice column => exact Prod.ext (hread _ _) rfl

end LazyAccess

inductive LazyChange where
  | push (row : Tuple)
  | set (index : Nat) (row : Tuple)
  | insert (index : Nat) (row : Tuple)
  | remove (index : Nat)
  | clear

def LazyChange.run (l : LazyList) : LazyChange → Outcome Unit × LazyList
  | .push row => (l.push row, l)
  | .set index row => ((l.set index row).map fun _ => (), l)
  | .insert index row => (l.insert index row, l)
  | .remove index => ((l.remove index).map fun _ => (), l)
  | .clear => (l.clear, l)

/-- What a lazy list can be asked to do. -/
inductive LazyCall where
  | read (access : LazyAccess)
  | change (step : LazyChange)
  | rows
  | walkColumn (column : Nat)
  | cursor
  | arity
  | isMaterialized

namespace LazyCall

def after (l : LazyList) : LazyCall → LazyList
  | .read access => (access.run l).2
  | .change step => (step.run l).2
  | .rows => l.rows.2
  | .walkColumn column => (l.walkColumn column).2
  | .cursor => l.walked.2
  | .arity | .isMaterialized => l

def isAccess : LazyCall → Bool
  | .read _ => true
  | _ => false

/-- Whether the call walks a source of some arity that has not been packed. -/
def walks (arity : Nat) : LazyCall → Bool
  | .rows | .cursor => true
  | .walkColumn column => column < arity
  | _ => false

end LazyCall

/-! ### What a call comes to -/

namespace LazyList

variable {l : LazyList} {t : TupleList} {failure : Failure} {call : LazyCall}

theorem list_of_some (hlist : l.list? = some t) : l.list = (.ok t, l) := by
  simp only [list, hlist]

theorem list_of_ok (hlist : l.list? = none) (hmaterialize : l.source.materialize l.limit = .ok t) :
    l.list = (.ok t.fixed, { l with walks := l.walks + 1, list? := some t.fixed }) := by
  simp only [list, hlist, hmaterialize]

theorem list_of_error (hlist : l.list? = none)
    (hmaterialize : l.source.materialize l.limit = .error failure) :
    l.list = (.error failure, { l with walks := l.walks + 1 }) := by
  simp only [list, hlist, hmaterialize]

theorem walked_of_some (hlist : l.list? = some t) : l.walked = (.list t, l) := by
  simp only [walked, hlist]

theorem walked_of_none (hlist : l.list? = none) :
    l.walked = (l.source, { l with walks := l.walks + 1 }) := by
  simp only [walked, hlist]

theorem after_of_isAccess (hcall : call.isAccess = true) : call.after l = l.list.2 := by
  cases call with
  | read access => rw [LazyCall.after, LazyAccess.run_eq]
  | _ => cases hcall

/-- Once the packed list is there, no call changes anything. -/
theorem after_of_some (hlist : l.list? = some t) (call : LazyCall) : call.after l = l := by
  cases call with
  | read access =>
    rw [LazyCall.after, LazyAccess.run_eq, list_of_some hlist]
  | change step => cases step <;> rfl
  | rows =>
    rw [LazyCall.after, rows, walked_of_some hlist]
  | walkColumn column =>
    rw [LazyCall.after, walkColumn, walked_of_some hlist]
    split <;> rfl
  | cursor =>
    rw [LazyCall.after, walked_of_some hlist]
  | arity | isMaterialized => rfl

/-- Before that, all calls but reads by position walk the source or do nothing. -/
theorem after_of_none (hlist : l.list? = none) (hcall : call.isAccess = false) :
    call.after l = { l with walks := l.walks + if call.walks l.source.arity then 1 else 0 } := by
  cases call with
  | read access => cases hcall
  | change step => cases step <;> rfl
  | rows =>
    rw [LazyCall.after, rows, walked_of_none hlist]
    rfl
  | walkColumn column =>
    rw [LazyCall.after, walkColumn, walked_of_none hlist]
    by_cases hcolumn : column < l.source.arity <;> simp [LazyCall.walks, LazyList.arity, hcolumn]
  | cursor =>
    rw [LazyCall.after, walked_of_none hlist]
    rfl
  | arity | isMaterialized => rfl

/-! ### Runs -/

section Runs

variable {source : TupleSource} {rows : List Tuple} {limit : RowLimit} {packed : TupleList}

theorem foldl_of_some (hlist : l.list? = some t) (calls : List LazyCall) :
    calls.foldl LazyCall.after l = l := by
  induction calls with
  | nil => rfl
  | cons call rest ih => rw [List.foldl_cons, after_of_some hlist, ih]

/-- A source that fits is packed at the first read by position. The calls before that may walk it,
and no other call does. -/
theorem foldl_of_ok (hmaterialize : source.materialize limit = .ok packed) (calls : List LazyCall)
    (walks : Nat) :
    calls.foldl LazyCall.after ⟨source, none, limit, walks⟩ =
      ⟨source, if calls.any LazyCall.isAccess then some packed.fixed else none, limit,
        walks + (calls.takeWhile fun call => !call.isAccess).countP (·.walks source.arity) +
          if calls.any LazyCall.isAccess then 1 else 0⟩ := by
  induction calls generalizing walks with
  | nil => rfl
  | cons call rest ih =>
    rw [List.foldl_cons, List.any_cons, List.takeWhile_cons]
    cases hcall : call.isAccess with
    | true =>
      rw [after_of_isAccess hcall, list_of_ok rfl hmaterialize, foldl_of_some rfl]
      simp
    | false =>
      rw [after_of_none rfl hcall, ih]
      simp only [Bool.false_or, Bool.not_false, if_true, List.countP_cons]
      congr 1
      omega

/-- A source that does not fit is walked by each read by position, in vain. -/
theorem foldl_of_error {failure : Failure}
    (hmaterialize : source.materialize limit = .error failure) (calls : List LazyCall)
    (walks : Nat) :
    calls.foldl LazyCall.after ⟨source, none, limit, walks⟩ =
      ⟨source, none, limit,
        walks + calls.countP fun call => call.isAccess || call.walks source.arity⟩ := by
  induction calls generalizing walks with
  | nil => rfl
  | cons call rest ih =>
    rw [List.foldl_cons, List.countP_cons]
    cases hcall : call.isAccess with
    | true =>
      rw [after_of_isAccess hcall, list_of_error rfl hmaterialize, ih]
      simp only [Bool.true_or, if_true]
      congr 1
      omega
    | false =>
      rw [after_of_none rfl hcall, ih]
      simp only [Bool.false_or]
      congr 1
      omega

theorem of_ok (hmaterialize : source.materialize limit = .ok packed) (calls : List LazyCall) :
    let here := calls.foldl LazyCall.after (new source limit)
    (∀ access : LazyAccess, (access.run here).1 = access.onList packed.fixed) ∧
      here.isMaterialized = calls.any LazyCall.isAccess ∧
      here.walks = (calls.takeWhile fun call => !call.isAccess).countP (·.walks source.arity) +
        (if calls.any LazyCall.isAccess then 1 else 0) ∧
      (here.isMaterialized = true → ∀ call : LazyCall, call.after here = here) := by
  intro here
  have hhere := foldl_of_ok hmaterialize calls 0
  rw [Nat.zero_add] at hhere
  change here = _ at hhere
  cases hany : calls.any LazyCall.isAccess with
  | true =>
    simp only [hany, if_true] at hhere ⊢
    refine ⟨fun access => ?_, by rw [hhere]; rfl, by rw [hhere], fun _ call => ?_⟩
    · rw [LazyAccess.run_eq, hhere, list_of_some rfl]
      rfl
    · rw [hhere]
      exact after_of_some rfl call
  | false =>
    simp only [hany, Bool.false_eq_true, if_false] at hhere ⊢
    refine ⟨fun access => ?_, by rw [hhere]; rfl, by rw [hhere], fun hpacked => ?_⟩
    · rw [LazyAccess.run_eq, hhere, list_of_ok rfl hmaterialize]
      rfl
    · rw [hhere] at hpacked
      cases hpacked

theorem of_error {failure : Failure} (hmaterialize : source.materialize limit = .error failure)
    (calls : List LazyCall) :
    let here := calls.foldl LazyCall.after (new source limit)
    (∀ access : LazyAccess, (access.run here).1 = .error failure) ∧
      here.isMaterialized = false ∧
      here.walks = calls.countP fun call => call.isAccess || call.walks source.arity := by
  intro here
  have hhere := foldl_of_error hmaterialize calls 0
  rw [Nat.zero_add] at hhere
  change here = _ at hhere
  refine ⟨fun access => ?_, by rw [hhere]; rfl, by rw [hhere]⟩
  rw [LazyAccess.run_eq, hhere, list_of_error rfl hmaterialize]
  rfl

/-- What a walk goes over shows the rows of the source, whether it is packed or not. -/
theorem presents_walked (hsource : source.Presents rows)
    (hcount : limit.clamp rows.length * source.arity < wordBound) (calls : List LazyCall) :
    let here := calls.foldl LazyCall.after (new source limit)
    here.arity = source.arity ∧ here.walked.1.Presents rows ∧
      here.walked.1.arity = source.arity := by
  intro here
  rcases hsource.materialize_cases hcount with
    ⟨-, hword, packed, hpacked, hrepresents⟩ | ⟨most, -, -, hfail⟩
  · have hhere : here = _ := foldl_of_ok hpacked calls 0
    cases hany : calls.any LazyCall.isAccess with
    | true =>
      simp only [hany, if_true] at hhere
      rw [hhere, walked_of_some rfl]
      exact ⟨rfl, .list hrepresents.fixed hword, hrepresents.arity_eq⟩
    | false =>
      simp only [hany, Bool.false_eq_true, if_false] at hhere
      rw [hhere, walked_of_none rfl]
      exact ⟨rfl, hsource, rfl⟩
  · have hhere : here = _ := foldl_of_error hfail calls 0
    rw [hhere, walked_of_none rfl]
    exact ⟨rfl, hsource, rfl⟩

end Runs

/-- Whatever a lazy list has been asked before, it reads like the packed list of all rows of its
source, made immutable, if the limit allows for them. The source is packed at the first read by
position, and after that no call does anything to the lazy list or its source. If there are too many
rows, every read by position says so, and nothing is packed. Changes are refused and walks go over
all rows in either case. -/
theorem reads_as_packed {source : TupleSource} {rows : List Tuple} {limit : RowLimit}
    (hsource : source.Presents rows) (hcount : limit.clamp rows.length * source.arity < wordBound)
    (calls : List LazyCall) :
    let here := calls.foldl LazyCall.after (new source limit)
    (limit.Allows rows.length → ∃ packed, source.materialize limit = .ok packed ∧
      packed.fixed.ReadsAs ⟨source.arity, rows, false, limit⟩ ∧
      (∀ access : LazyAccess, (access.run here).1 = access.onList packed.fixed) ∧
      here.isMaterialized = calls.any LazyCall.isAccess ∧
      here.walks = (calls.takeWhile fun call => !call.isAccess).countP (·.walks source.arity) +
        (if calls.any LazyCall.isAccess then 1 else 0) ∧
      (here.isMaterialized = true → ∀ call : LazyCall, call.after here = here)) ∧
    (∀ most, limit.rows? = some most → most < rows.length →
      (∀ access : LazyAccess, (access.run here).1 = fail (.limitExceeded (most + 1) most)) ∧
      here.isMaterialized = false ∧
      here.walks = calls.countP fun call => call.isAccess || call.walks source.arity) ∧
    (∀ change : LazyChange, change.run here = (fail .immutableList, here)) ∧
    here.arity = source.arity ∧
    here.rows.1 = .ok rows ∧
    Cursor.Yields here.walked.1.cursor rows ∧ Cursor.Offers here.walked.1.cursor rows ∧
    ∀ column < source.arity, ∃ members, (here.walkColumn column).1 = .ok members ∧
      members.map some = rows.map fun row => row[column]? := by
  intro here
  have hmaterialize := hsource.materialize_cases hcount
  obtain ⟨harity, hpresents, hwalked⟩ := presents_walked hsource hcount calls
  refine ⟨fun hallows => ?_, fun most hmost hlt => ?_, fun change => by cases change <;> rfl,
    harity, hpresents.readRows_eq, hpresents.yields, hpresents.offers, fun column hcolumn => ?_⟩
  · rcases hmaterialize with ⟨-, hword, packed, hpacked, hrepresents⟩ | ⟨most, hmost, hlt, -⟩
    · exact ⟨packed, hpacked, hrepresents.fixed.readsAs hword, of_ok hpacked calls⟩
    · exact absurd (hallows most hmost) (Nat.not_le.mpr hlt)
  · rcases hmaterialize with ⟨hallows, -⟩ | ⟨most', hmost', -, hfail⟩
    · exact absurd (hallows most hmost) (Nat.not_le.mpr hlt)
    · obtain rfl := Option.some.inj (hmost.symm.trans hmost')
      exact of_error hfail calls
  · have hread : (here.walkColumn column).1 = here.walked.1.readColumn column := by
      rw [walkColumn, if_pos (harity.symm ▸ hcolumn)]
    rw [hread]
    exact hpresents.exists_readColumn_eq (hwalked.symm ▸ hcolumn)

end LazyList

namespace Sales

/-- All pairs of a time and a town, not enumerated yet. -/
def pairSource : TupleSource :=
  .product ⟨.unary time.members.toArray, false, .unbounded⟩
    ⟨.unary town.members.toArray, false, .unbounded⟩

def pairCalls : List LazyCall := [.rows, .change .clear, .read (.row? 0), .cursor]

def pairsAfter (calls : List LazyCall) (most : Int) : LazyList :=
  calls.foldl LazyCall.after (LazyList.new pairSource (.ofInt most))

/-- There are six pairs, which are packed if the limit allows for them. -/
theorem pairSource_packed :
    ((pairsAfter pairCalls 6).isMaterialized = true ∧ (pairsAfter pairCalls 6).walks = 2 ∧
      (LazyAccess.length.run (pairsAfter pairCalls 6)).1 = .ok (.count 6)) ∧
    (pairsAfter pairCalls 5).isMaterialized = false ∧
    (LazyAccess.length.run (pairsAfter pairCalls 5)).1 = fail (.limitExceeded 6 5) := by
  have hpresents : pairSource.Presents (pairRows (time.members.map fun m => [m])
      (town.members.map fun m => [m])) :=
    .product (.of_unary time.members.toArray false .unbounded) (by decide)
      (.of_unary town.members.toArray false .unbounded) (by decide)
  constructor
  · obtain ⟨hfits, -⟩ :=
      @LazyList.reads_as_packed _ _ (.ofInt 6) hpresents (by decide) pairCalls
    obtain ⟨packed, -, hreads, hanswers, hpacked, hwalks, -⟩ := hfits fun most hmost => by
      obtain rfl : 6 = most := Option.some.inj hmost
      decide
    refine ⟨hpacked, hwalks, (hanswers .length).trans ?_⟩
    exact congrArg (Except.ok ∘ LazyAccess.Answer.count) hreads.length_eq
  · obtain ⟨-, hexceeds, -⟩ :=
      @LazyList.reads_as_packed _ _ (.ofInt 5) hpresents (by decide) pairCalls
    obtain ⟨hanswers, hpacked, -⟩ := hexceeds 5 rfl (by decide)
    exact ⟨hpacked, hanswers .length⟩

end Sales

end CubeCalc
