import CubeCalc.Proofs.Lookahead
import CubeCalc.Tuple.View
/-!
# Views on views

A view stands for a table of rows. Whatever views are put on top of each other, in whatever order,
what is read through them is what the tables say: a range of the rows, some of the columns, or one.
Positions and columns are always those of the view, never of the list below.
-/

namespace CubeCalc

open Outcome

/-! ### Tables -/

structure Table where
  arity : Nat
  rows : List Tuple

namespace Table

def range (t : Table) (start stop : Nat) : Table := { t with rows := t.rows.extract start stop }

def project (t : Table) (columns : List Nat) : Table :=
  ⟨columns.length, t.rows.map fun row => columns.filterMap (row[·]?)⟩

end Table

/-- A way of looking at a collection. -/
inductive ViewStep where
  | range (start stop : Nat)
  /-- A range of what may be a range already. -/
  | narrow (start stop : Nat)
  | project (columns : List Nat)
  | single (column : Nat)
  | tracked
  deriving Repr

namespace ViewStep

def run (v : View) : ViewStep → Outcome View
  | .range start stop => v.range? start stop
  | .narrow start stop => v.narrow? start stop
  | .project columns => v.project? columns
  | .single column => v.single? column
  | .tracked => .ok (.tracked v)

def runTable (t : Table) : ViewStep → Outcome Table
  | .range start stop | .narrow start stop =>
    if t.rows.length < stop then fail (.indexOutOfBounds stop t.rows.length)
    else if stop < start then fail (.indexOutOfBounds start stop)
    else .ok (t.range start stop)
  | .project columns =>
    match columns.find? fun column => t.arity ≤ column with
    | some column => fail (.indexOutOfBounds column t.arity)
    | none => .ok (t.project columns)
  | .single column =>
    if column < t.arity then .ok (t.project [column])
    else violate (.columnOutOfRange column t.arity)
  | .tracked => .ok t

end ViewStep

namespace View

variable {v : View} {t : Table} {start stop : Nat} {columns : List Nat}

/-- The members of the view are those of the table. -/
def Shows (v : View) (t : Table) : Prop := Indexed.Shows v t.arity t.rows

/-- What is read through the view, on any path, is read from the table. -/
structure ReadsAs (v : View) (t : Table) : Prop where
  arity_eq : v.arity = t.arity
  length_eq : v.length = t.rows.length
  uniform : ∀ row ∈ t.rows, row.length = t.arity
  member_eq : ∀ (index column : Nat) (hindex : index < t.rows.length)
    (hcolumn : column < t.rows[index].length),
    v.member column index = .ok t.rows[index][column]
  tuple_eq : ∀ index, Indexed.row? v index = .ok t.rows[index]?
  yields : Cursor.Yields (PositionCursor.start v) t.rows
  handedOut_eq : ∀ moves : List LookaheadMove,
    (LookaheadMove.reports (Lookahead.start (PositionCursor.start v)) moves).flatMap
      LookaheadMove.Report.delivered = (t.rows.take (moves.countP LookaheadMove.takes)).map .ok
  column_eq : ∀ column < t.arity, ∃ it,
    ColumnCursor.start (PositionCursor.start v) column = .ok it ∧
      ∀ k, (it.nextBy k).next.1 = .ok (t.rows[k]?.bind (·[column]?))

/-- What can be put on top of the view, and how the rest is refused. -/
structure OpensAs (v : View) (t : Table) : Prop where
  range_iff : ∀ start stop,
    (∃ w, v.range? start stop = .ok w) ↔ start ≤ stop ∧ stop ≤ t.rows.length
  range_eq_of_length_lt : ∀ start stop, t.rows.length < stop →
    v.range? start stop = fail (.indexOutOfBounds stop t.rows.length)
  range_eq_of_lt : ∀ start stop, stop ≤ t.rows.length → stop < start →
    v.range? start stop = fail (.indexOutOfBounds start stop)
  narrow_matches : ∀ start stop,
    Matches (fun narrowed ranged => narrowed.arity = ranged.arity ∧
      narrowed.length = ranged.length ∧ narrowed.member = ranged.member)
      (v.narrow? start stop) (v.range? start stop)
  project_iff : ∀ columns,
    (∃ w, v.project? columns = .ok w) ↔ ∀ column ∈ columns, column < t.arity
  project_eq_of_le : ∀ (before : List Nat) (column : Nat) (after : List Nat),
    (∀ other ∈ before, other < t.arity) → t.arity ≤ column →
    v.project? (before ++ column :: after) = fail (.indexOutOfBounds column t.arity)
  single_iff : ∀ column, (∃ w, v.single? column = .ok w) ↔ column < t.arity

/-! ### Reading -/

theorem Shows.readsAs (h : v.Shows t) : v.ReadsAs t where
  arity_eq := h.arity_eq
  length_eq := h.length_eq
  uniform := h.uniform
  member_eq := h.member_eq
  tuple_eq := h.row?_eq
  yields := h.yields
  handedOut_eq moves := by
    have hoffers : Cursor.Offers (PositionCursor.start v) t.rows := h.yields.offers fun _ _ => rfl
    simpa using (Lookahead.stands_start (PositionCursor.start v) t.rows).delivered_eq hoffers moves
  column_eq _ hcolumn := h.column_eq hcolumn

/-! ### One view -/

/-- Rows of a range keep their order, and count from where the range starts. -/
theorem Shows.range (h : v.Shows t) (hstart : start ≤ stop) (hstop : stop ≤ t.rows.length) :
    (range v start stop).Shows (t.range start stop) := by
  have hlength : (t.range start stop).rows.length = stop - start := by
    simp only [Table.range, List.extract_eq_take_drop, List.length_take, List.length_drop]
    omega
  refine ⟨h.arity_eq, hlength.symm, fun row hrow => ?_, fun index column hindex hcolumn => ?_⟩
  · apply h.uniform
    simp only [Table.range, List.extract_eq_take_drop] at hrow
    exact List.mem_of_mem_drop (List.mem_of_mem_take hrow)
  · have hinside : start + index < t.rows.length := by omega
    have hrow : (t.range start stop).rows[index] = t.rows[start + index] := by simp [Table.range]
    simp only [hrow] at hcolumn ⊢
    change (if index < stop - start then v.member column (start + index) else _) = _
    rw [if_pos (hlength ▸ hindex)]
    exact h.member_eq (start + index) column hinside hcolumn

section Projected

variable {row : Tuple}

theorem map_some_projected (hcolumns : ∀ column ∈ columns, column < row.length) :
    (columns.filterMap (row[·]?)).map some = columns.map (row[·]?) := by
  induction columns with
  | nil => rfl
  | cons column rest ih =>
    rw [List.forall_mem_cons] at hcolumns
    simp [List.getElem?_eq_getElem hcolumns.1, ih hcolumns.2]

theorem length_projected (hcolumns : ∀ column ∈ columns, column < row.length) :
    (columns.filterMap (row[·]?)).length = columns.length := by
  simpa using congrArg List.length (map_some_projected hcolumns)

theorem getElem_projected (hcolumns : ∀ column ∈ columns, column < row.length) {place : Nat}
    (hplace : place < (columns.filterMap (row[·]?)).length) (hplace' : place < columns.length)
    (hcolumn : columns[place] < row.length) :
    (columns.filterMap (row[·]?))[place] = row[columns[place]] := by
  have hplaces := congrArg (·[place]?) (map_some_projected hcolumns)
  simpa [hplace, hplace', hcolumn] using hplaces

end Projected

theorem Shows.project (h : v.Shows t) (hcolumns : ∀ column ∈ columns, column < t.arity) {w : View}
    (harity : w.arity = columns.length) (hlength : w.length = v.length)
    (hmember : ∀ (place index : Nat) (hplace : place < columns.length),
      w.member place index = v.member columns[place] index) : w.Shows (t.project columns) := by
  have hwithin : ∀ row ∈ t.rows, ∀ column ∈ columns, column < row.length := by
    intro row hrow
    rwa [h.uniform row hrow]
  refine ⟨harity, ?_, fun projected hprojected => ?_, fun index place hindex hplace => ?_⟩
  · exact (hlength.trans h.length_eq).trans (List.length_map _).symm
  · obtain ⟨row, hrow, rfl⟩ := List.mem_map.mp hprojected
    exact length_projected (hwithin row hrow)
  · have hindex' : index < t.rows.length := by simpa [Table.project] using hindex
    have hrow := hwithin _ (List.getElem_mem hindex')
    have hselected : (t.project columns).rows[index] =
        columns.filterMap (t.rows[index][·]?) := by simp [Table.project]
    simp only [hselected] at hplace ⊢
    have hplace' : place < columns.length := by rwa [length_projected hrow] at hplace
    have hcolumn := hrow _ (List.getElem_mem hplace')
    rw [getElem_projected hrow hplace hplace' hcolumn]
    exact (hmember place index hplace').trans (h.member_eq index _ hindex' hcolumn)

/-- A range of a range is the same as one range of what is below. -/
theorem narrow_matches (v : View) (start stop : Nat) :
    Matches (fun narrowed ranged => narrowed.arity = ranged.arity ∧
      narrowed.length = ranged.length ∧ narrowed.member = ranged.member)
      (v.narrow? start stop) (v.range? start stop) := by
  unfold narrow? range?
  by_cases hlength : stop > v.length
  · rw [if_pos hlength]
    exact .failed _
  rw [if_neg hlength]
  by_cases horder : start > stop
  · rw [if_pos horder]
    exact .failed _
  rw [if_neg horder]
  cases v with
  | range base offset last =>
    -- The offsets are added, so that one bound is left to check where there were two.
    refine .ok ⟨rfl, ?_, ?_⟩
    · change offset + stop - (offset + start) = stop - start
      omega
    · funext column index
      have hstop : stop ≤ last - offset := Nat.le_of_not_lt hlength
      have hcount : offset + stop - (offset + start) = stop - start := by omega
      simp only [member, hcount, Nat.add_assoc]
      by_cases hindex : index < stop - start
      · have hinside : start + index < last - offset := by omega
        rw [if_pos hindex, if_pos hindex, if_pos hinside]
      · rw [if_neg hindex, if_neg hindex]
  | list | project | single | tracked => exact .ok ⟨rfl, rfl, rfl⟩

/-! ### Views on top of views -/

theorem shows_list {l : TupleList} {p : PlainList} (hl : l.Represents p) (hp : p.IsCountable) :
    Shows (.list l) ⟨p.arity, p.rows⟩ where
  arity_eq := hl.arity_eq
  length_eq := hl.length_eq
  uniform _ := hl.row_length_eq
  member_eq _ _ := hl.member_eq hp

theorem Shows.range?_matches (h : v.Shows t) (start stop : Nat) :
    Matches Shows (v.range? start stop) (ViewStep.runTable t (.range start stop)) := by
  have hlength : v.length = t.rows.length := h.length_eq
  rw [range?, ViewStep.runTable, hlength]
  by_cases hstop : t.rows.length < stop
  · rw [if_pos hstop, if_pos hstop]
    exact .failed _
  rw [if_neg hstop, if_neg hstop]
  by_cases hstart : stop < start
  · rw [if_pos hstart, if_pos hstart]
    exact .failed _
  rw [if_neg hstart, if_neg hstart]
  exact .ok (h.range (Nat.le_of_not_lt hstart) (Nat.le_of_not_lt hstop))

theorem Shows.of_narrowed {narrowed ranged : View} (h : ranged.Shows t)
    (harity : narrowed.arity = ranged.arity) (hlength : narrowed.length = ranged.length)
    (hmember : narrowed.member = ranged.member) : narrowed.Shows t where
  arity_eq := harity.trans h.arity_eq
  length_eq := hlength.trans h.length_eq
  uniform := h.uniform
  member_eq index column hindex hcolumn := by
    change narrowed.member column index = _
    rw [hmember]
    exact h.member_eq index column hindex hcolumn

/-- A view can be put on top of another just if the table allows for it, and shows what the table
comes to. -/
theorem Shows.run_matches (h : v.Shows t) (step : ViewStep) :
    Matches Shows (step.run v) (step.runTable t) := by
  have harity : v.arity = t.arity := h.arity_eq
  cases step with
  | range start stop => exact h.range?_matches start stop
  | narrow start stop =>
    refine (narrow_matches v start stop).trans (h.range?_matches start stop) ?_
    rintro narrowed ranged table ⟨harity, hlength, hmember⟩ hranged
    exact hranged.of_narrowed harity hlength hmember
  | project columns =>
    simp only [ViewStep.run, ViewStep.runTable, project?, harity]
    cases hfind : columns.find? fun column => t.arity ≤ column with
    | some column => exact .failed _
    | none =>
      have hcolumns : ∀ column ∈ columns, column < t.arity := by
        simpa using List.find?_eq_none.mp hfind
      refine .ok (h.project hcolumns rfl rfl fun place index hplace => ?_)
      simp [View.member, hplace]
  | single column =>
    simp only [ViewStep.run, ViewStep.runTable, single?, harity]
    by_cases hcolumn : column < t.arity
    · rw [if_pos hcolumn, if_pos hcolumn]
      refine .ok (h.project (by simpa using hcolumn) rfl rfl fun place index hplace => ?_)
      obtain rfl : place = 0 := by simpa using hplace
      rfl
    · rw [if_neg hcolumn, if_neg hcolumn]
      exact .failed _
  | tracked => exact .ok ⟨h.arity_eq, h.length_eq, h.uniform, h.member_eq⟩

/-! ### What can be put on top -/

theorem Shows.opensAs (h : v.Shows t) : v.OpensAs t where
  range_iff start stop := by
    rw [range?, show v.length = t.rows.length from h.length_eq]
    constructor
    · rintro ⟨w, hw⟩
      by_contra hbad
      split at hw
      · cases hw
      · split at hw
        · cases hw
        · omega
    · rintro ⟨hstart, hstop⟩
      rw [if_neg (Nat.not_lt.mpr hstop), if_neg (Nat.not_lt.mpr hstart)]
      exact ⟨_, rfl⟩
  range_eq_of_length_lt start stop hstop := by
    rw [range?, show v.length = t.rows.length from h.length_eq, if_pos hstop]
  range_eq_of_lt start stop hstop hstart := by
    rw [range?, show v.length = t.rows.length from h.length_eq, if_neg (Nat.not_lt.mpr hstop),
      if_pos hstart]
  narrow_matches := narrow_matches v
  project_iff columns := by
    rw [project?, show v.arity = t.arity from h.arity_eq]
    cases hfind : columns.find? fun column => t.arity ≤ column with
    | some column =>
      have hcolumn : t.arity ≤ column := by simpa using List.find?_some hfind
      constructor
      · rintro ⟨w, hw⟩
        cases hw
      · intro hcolumns
        exact absurd (hcolumns column (List.mem_of_find?_eq_some hfind)) (Nat.not_lt.mpr hcolumn)
    | none =>
      have hcolumns : ∀ column ∈ columns, column < t.arity := by
        simpa using List.find?_eq_none.mp hfind
      exact ⟨fun _ => hcolumns, fun _ => ⟨_, rfl⟩⟩
  project_eq_of_le before column after hbefore hcolumn := by
    have hfind : (before ++ column :: after).find? (fun column => t.arity ≤ column) =
        some column := by
      rw [List.find?_append, List.find?_eq_none.mpr (by simpa using hbefore)]
      simp [hcolumn]
    rw [project?, show v.arity = t.arity from h.arity_eq, hfind]
  single_iff column := by
    rw [single?, show v.arity = t.arity from h.arity_eq]
    split
    · next hcolumn => exact ⟨fun _ => hcolumn, fun _ => ⟨_, rfl⟩⟩
    · next hcolumn =>
      constructor
      · rintro ⟨w, hw⟩
        cases hw
      · intro hlt
        exact absurd hlt hcolumn

/-- Every stack of views can be built just if the tables allow for it, with the same refusal where
they do not, and reads like the table that it stands for. -/
theorem stack_readsAs {l : TupleList} {p : PlainList} (hl : l.Represents p) (hp : p.IsCountable)
    (steps : List ViewStep) :
    Matches (fun v t => v.ReadsAs t ∧ v.OpensAs t) (steps.foldlM ViewStep.run (.list l))
      (steps.foldlM ViewStep.runTable ⟨p.arity, p.rows⟩) := by
  have hshows : Matches Shows (steps.foldlM ViewStep.run (.list l))
      (steps.foldlM ViewStep.runTable ⟨p.arity, p.rows⟩) :=
    matches_foldlM (shows_list hl hp) fun v t step h => h.run_matches step
  exact hshows.mono fun _ _ h => ⟨h.readsAs, h.opensAs⟩

end View

namespace Sales

def visitRows : List Tuple := [[firstYear, oslo], [firstYear, bergen], [firstYear, oslo]]

def visits : TupleList := ⟨.packed ⟨2, visitRows.flatten.toArray, 0⟩, true, .unbounded⟩

/-- The last two visits, each as a town, a year and the town once more, of which the last is
kept. -/
def visitViews : List ViewStep :=
  [.range 0 3, .narrow 1 3, .project [1, 0, 1], .tracked, .single 2]

theorem visitViews_readAs :
    ∃ v, visitViews.foldlM ViewStep.run (.list visits) = .ok v ∧
      v.ReadsAs ⟨1, [[bergen], [oslo]]⟩ := by
  have hvisits : visits.Represents ⟨2, visitRows, true, .unbounded⟩ :=
    .of_packed (by decide) (by decide) 0 true .unbounded
  have hmatches := View.stack_readsAs hvisits (by decide) visitViews
  obtain ⟨t, htable, hreads, -⟩ := hmatches.exists_of_ok rfl
  obtain rfl : (⟨1, [[bergen], [oslo]]⟩ : Table) = t := Except.ok.inj htable
  exact ⟨_, rfl, hreads⟩

end Sales

end CubeCalc
