import CubeCalc.Proofs.CrossJoin
/-!
# Taking tuples over

A list takes the tuple of a cursor over if the arity that the cursor declares is its own. What is
said of lists and rows holds against any cursors and sources whose tuples are as long as they
declare. The cursors of lists, products and columns are made that way. Rows that are produced on
demand can have any length, but a walk does not get past one of the wrong length, so that no list is
asked to take it over.
-/

namespace CubeCalc

open Outcome

/-! ### Cursors that keep to their arity -/

/-- A cursor that has moved onto a tuple stands on one that is as long as it declares. -/
class LawfulCursor (κ : Type) [Cursor κ] : Prop where
  length_eq {cursor : κ} {row : Tuple} : (Cursor.forward cursor).1 = .ok true →
    Cursor.current (Cursor.forward cursor).2 = .ok row →
      row.length = Cursor.arity (Cursor.forward cursor).2

theorem Cursor.length_of_columns {κ : Type} [Cursor κ] {cursor : κ} {row : Tuple}
    (hrow : columns cursor = .ok row) : row.length = arity cursor := by
  rw [length_of_mapM_eq_ok hrow, List.length_range]

instance {ι : Type} [Indexed ι] : LawfulCursor (PositionCursor ι) where
  length_eq _ hrow := Cursor.length_of_columns hrow

instance : LawfulCursor ProductCursor where
  length_eq _ hrow := Cursor.length_of_columns hrow

instance {κ : Type} [Cursor κ] : LawfulCursor (Lookahead κ) where
  length_eq _ hrow := Cursor.length_of_columns hrow

instance : LawfulCursor RowCursor where
  length_eq {cursor row} hfound hrow := by
    obtain ⟨arity, remaining, row?⟩ := cursor
    cases remaining with
    | nil => cases hfound
    | cons first rest =>
      obtain rfl : first = row := Except.ok.inj hrow
      change (checkLength arity first).map (fun _ => true) = .ok true at hfound
      have hcheck : checkLength arity first = .ok () := by
        cases hcheck : checkLength arity first with
        | error failure =>
          rw [hcheck] at hfound
          cases hfound
        | ok => rfl
      exact checkLength_eq_ok_iff.mp hcheck

instance : LawfulCursor SourceCursor where
  length_eq {cursor row} hfound hrow := by
    cases cursor with
    | positions c =>
      exact (inferInstance : LawfulCursor (PositionCursor TupleList)).length_eq hfound hrow
    | product c => exact (inferInstance : LawfulCursor ProductCursor).length_eq hfound hrow
    | rows c => exact (inferInstance : LawfulCursor RowCursor).length_eq hfound hrow

/-- What a list is given of a row that a walk has come to is as long as the source declares. -/
theorem TupleSource.length_of_wholeRow {source : TupleSource} {row whole : Tuple}
    (hreach : source.reach row = .ok ()) (hwhole : source.wholeRow row = .ok whole) :
    whole.length = source.arity := by
  cases source with
  | rows declared tuples =>
    obtain rfl := Except.ok.inj hwhole
    exact checkLength_eq_ok_iff.mp hreach
  | list | product =>
    simp only [wholeRow, readColumns] at hwhole
    split at hwhole
    · next hle =>
      obtain rfl := Except.ok.inj hwhole
      exact List.length_take_of_le hle
    · cases hwhole

/-! ### What a plain list takes over -/

namespace PlainList

variable {p longer : PlainList} {arity : Nat} {row : Outcome Tuple} {source : TupleSource}

/-- The arity that is declared is checked, and then the tuple itself. -/
def take (p : PlainList) (arity : Nat) (row : Outcome Tuple) : Outcome PlainList := do
  p.checkMutable
  if arity = p.arity then p.push (← row) else fail (.arityMismatch p.arity arity)

/-- One tuple after the other, up to the first that is not come to or refused. -/
def takeAll (p : PlainList) (source : TupleSource) : List Tuple → PlainList × Outcome Unit
  | [] => (p, .ok ())
  | row :: rest =>
    match source.reach row >>= fun _ => p.take source.arity (source.wholeRow row) with
    | .ok longer => longer.takeAll source rest
    | .error failure => (p, .error failure)

theorem exists_of_take_eq_ok (htake : p.take arity row = .ok longer) :
    ∃ taken, row = .ok taken ∧ arity = p.arity ∧
      longer = { p with rows := p.rows ++ [taken] } := by
  obtain ⟨-, -, htake⟩ := bind_eq_ok_iff.mp htake
  split at htake
  · next harity =>
    obtain ⟨taken, hrow, hpush⟩ := bind_eq_ok_iff.mp htake
    exact ⟨taken, hrow, harity, push_eq_ok hpush⟩
  · cases htake

/-- The tuples that are taken over are the first ones, as far as they are as long as the list's. -/
theorem exists_takeAll_eq (p : PlainList) (source : TupleSource) (tuples : List Tuple) :
    ∃ taken, (p.takeAll source tuples).1 = { p with rows := p.rows ++ taken } ∧
      (∀ row ∈ taken, row.length = p.arity) ∧
      taken.map .ok <+: tuples.map source.wholeRow ∧
      ((p.takeAll source tuples).2 = .ok () → taken.map .ok = tuples.map source.wholeRow) := by
  induction tuples generalizing p with
  | nil => exact ⟨[], by simp [takeAll]⟩
  | cons row rest ih =>
    rw [takeAll]
    cases htake : source.reach row >>= fun _ => p.take source.arity (source.wholeRow row) with
    | error failure => exact ⟨[], by simp⟩
    | ok longer =>
      obtain ⟨⟨⟩, hreach, htake⟩ := bind_eq_ok_iff.mp htake
      obtain ⟨first, hfirst, harity, rfl⟩ := exists_of_take_eq_ok htake
      obtain ⟨taken, hrest, huniform, hprefix, hall⟩ := ih { p with rows := p.rows ++ [first] }
      refine ⟨first :: taken, by simpa using hrest, ?_, ?_, fun hok => ?_⟩
      · rw [List.forall_mem_cons]
        exact ⟨(TupleSource.length_of_wholeRow hreach hfirst).trans harity, huniform⟩
      · rw [List.map_cons, List.map_cons, hfirst]
        exact List.cons_prefix_cons.mpr ⟨rfl, hprefix⟩
      · rw [List.map_cons, List.map_cons, hfirst, hall hok]

theorem IsCountable.of_takeAll {tuples : List Tuple}
    (hcount : (p.takeAll source tuples).1.IsCountable) : p.IsCountable := by
  obtain ⟨taken, htaken, -⟩ := p.exists_takeAll_eq source tuples
  rw [htaken, IsCountable, List.length_append] at hcount
  exact Nat.lt_of_le_of_lt (Nat.mul_le_mul_right _ (Nat.le_add_right _ _)) hcount

end PlainList

/-! ### What a tuple list takes over -/

namespace TupleList.Represents

variable {l : TupleList} {p : PlainList} {arity : Nat}

/-- A tuple is taken over as the plain list takes it, if it is as long as its sequence declares. -/
theorem addRow (hl : l.Represents p) (hp : p.IsCountable) {row : Outcome Tuple}
    (hrow : arity = p.arity → ∀ whole, row = .ok whole → whole.length = arity) :
    Matches Represents (l.addRow arity row) (p.take arity row) := by
  rw [TupleList.addRow, PlainList.take, hl.checkMutable_eq]
  refine .bind_self _ fun _ hmutable => ?_
  rw [checkArity, hl.arity_eq]
  by_cases harity : arity = p.arity
  · rw [if_pos harity, if_pos harity]
    refine .bind_self row fun whole hwhole => ?_
    have hpush := hl.push hp whole
    have hlength : whole.length = l.arity := by
      rw [hrow harity whole hwhole, harity, hl.arity_eq]
    have hmutable' : l.checkMutable = .ok () := hl.checkMutable_eq.trans hmutable
    rwa [TupleList.push, hmutable', checkArity, if_pos hlength] at hpush
  · rw [if_neg harity, if_neg harity]
    exact .failed _

theorem addTo (hl : l.Represents p) (hp : p.IsCountable) (source : TupleSource) (row : Tuple) :
    Matches Represents (source.addTo l row)
      (source.reach row >>= fun _ => p.take source.arity (source.wholeRow row)) := by
  refine .bind_self (source.reach row) fun _ hreach => ?_
  exact hl.addRow hp fun _ whole => TupleSource.length_of_wholeRow hreach

theorem takeAll {source : TupleSource} :
    ∀ {tuples : List Tuple} {l : TupleList} {p : PlainList}, l.Represents p →
      (p.takeAll source tuples).1.IsCountable →
      (l.addRows source tuples).1.Represents (p.takeAll source tuples).1 ∧
        (l.addRows source tuples).2 = (p.takeAll source tuples).2
  | [], _, _, hl, _ => ⟨hl, rfl⟩
  | row :: rest, l, p, hl, hcount => by
    have hadd := hl.addTo hcount.of_takeAll source row
    rw [PlainList.takeAll] at hcount ⊢
    rw [TupleList.addRows]
    -- Both take the row over, or both leave it and all that follow.
    generalize source.addTo l row = added at hadd
    generalize (source.reach row >>= fun _ => p.take source.arity (source.wholeRow row)) = taken
      at hadd hcount
    cases hadd with
    | failed failure => exact ⟨hl, rfl⟩
    | ok hlonger => exact hlonger.takeAll hcount

end TupleList.Represents

/-! ### Steps -/

/-- What is done to a list, by cursors and sources of any kind as well. -/
inductive Intake : Type 1 where
  | change (step : ListStep)
  | addCurrent {κ : Type} [Cursor κ] (cursor : κ)
  | extendFrom (source : TupleSource)

namespace Intake

open ListStep (settle Answer)

def run (l : TupleList) : Intake → TupleList × Outcome Answer
  | .change step => step.run l
  | @addCurrent _ _ cursor => settle l ((l.addCurrent cursor).map (·, .done))
  | .extendFrom source => ((l.extendFrom source).1, (l.extendFrom source).2.map fun _ => .done)

def runPlain (p : PlainList) : Intake → PlainList × Outcome Answer
  | .change step => step.runPlain p
  | @addCurrent _ _ cursor =>
    settle p ((p.take (Cursor.arity cursor) (Cursor.current cursor)).map (·, .done))
  | .extendFrom source =>
    ((p.takeAll source source.tuples).1, (p.takeAll source source.tuples).2.map fun _ => .done)

/-- A cursor that declares the list's arity stands on a tuple of that length. -/
def IsHonest (arity : Nat) : Intake → Prop
  | .change _ | .extendFrom _ => True
  | @addCurrent _ _ cursor =>
    Cursor.arity cursor = arity → ∀ row, Cursor.current cursor = .ok row → row.length = arity

/-- Where a lawful cursor has moved to its tuple can be taken over. -/
theorem isHonest_of_forward {κ : Type} [Cursor κ] [LawfulCursor κ] {cursor : κ}
    (hfound : (Cursor.forward cursor).1 = .ok true) (arity : Nat) :
    (addCurrent (Cursor.forward cursor).2).IsHonest arity := by
  intro harity row hrow
  rw [LawfulCursor.length_eq hfound hrow, harity]

/-- What some steps come to, one after the other, and what each of them answers. -/
def trace {α : Type} (run : α → Intake → α × Outcome Answer) :
    α → List Intake → List (α × Outcome Answer)
  | _, [] => []
  | before, step :: rest => run before step :: trace run (run before step).1 rest

variable {l : TupleList} {p : PlainList}

theorem arity_settle {α : Type} {o : Outcome α} {f : α → PlainList × Answer}
    (ho : Meets (fun a => (f a).1.arity = p.arity) (fun _ => True) o) :
    (settle p (o.map f)).1.arity = p.arity := by
  cases o with
  | error failure => rfl
  | ok a => exact ho

/-- Nothing that is done to a list changes its arity. -/
theorem arity_change (p : PlainList) (step : ListStep) : (step.runPlain p).1.arity = p.arity := by
  cases step with
  | push | addCurrent | set =>
    apply arity_settle
    refine meets_bind_of_forall fun _ => meets_bind_of_forall fun _ => ?_
    exact meets_bind_of_forall fun _ => rfl
  | insert =>
    apply arity_settle
    refine meets_bind_of_forall fun _ => meets_bind_of_forall fun _ => ?_
    exact meets_bind_of_forall fun _ => meets_bind_of_forall fun _ => rfl
  | remove =>
    apply arity_settle
    exact meets_bind_of_forall fun _ => meets_bind_of_forall fun _ => rfl
  | clear | retain | sortBy =>
    apply arity_settle
    exact meets_bind_of_forall fun _ => rfl
  | extendFrom source =>
    obtain ⟨taken, -, hextend⟩ := p.exists_extend_eq source.tuples
    rw [ListStep.runPlain, hextend]
  | fix | copy => rfl

theorem arity_runPlain (p : PlainList) (step : Intake) : (step.runPlain p).1.arity = p.arity := by
  cases step with
  | change step => exact arity_change p step
  | addCurrent cursor =>
    apply arity_settle
    cases htake : p.take (Cursor.arity cursor) (Cursor.current cursor) with
    | error failure => trivial
    | ok longer =>
      obtain ⟨taken, -, -, rfl⟩ := PlainList.exists_of_take_eq_ok htake
      rfl
  | extendFrom source =>
    obtain ⟨taken, htaken, -⟩ := p.exists_takeAll_eq source source.tuples
    simp only [runPlain, htaken]

/-- An honest step answers as the step on the plain list does, and comes to a list that represents
what that comes to. -/
theorem run_represents (hl : l.Represents p) (step : Intake) (hhonest : step.IsHonest p.arity)
    (hp : p.IsCountable) (hafter : (step.runPlain p).1.IsCountable) :
    (step.run l).1.Represents (step.runPlain p).1 ∧ (step.run l).2 = (step.runPlain p).2 := by
  cases step with
  | change step => exact ListStep.run_represents hl step hp hafter
  | addCurrent cursor =>
    have hadd := hl.addRow hp fun harity row hrow => (hhonest harity row hrow).trans harity.symm
    exact ListStep.settle_matches hl (hadd.map fun _ _ h => ⟨h, rfl⟩)
  | extendFrom source =>
    obtain ⟨hrepresents, hanswer⟩ := hl.takeAll hafter
    exact ⟨hrepresents, congrArg (Except.map fun _ => Answer.done) hanswer⟩

/-! ### Refusals -/

/-- The step brings a tuple of another length, or one of a sequence that declares another arity. -/
def Mismatches (arity : Nat) : Intake → Prop
  | .change (.push row) | .change (.insert _ row) | .change (.set _ row) => row.length ≠ arity
  | @addCurrent _ _ cursor => Cursor.arity cursor ≠ arity
  | .extendFrom (.rows declared (row :: _)) => declared ≠ arity ∨ row.length ≠ arity
  | .extendFrom source => source.arity ≠ arity ∧ source.tuples ≠ []
  | .change _ => False

theorem exists_checkArity_bind_eq {α : Type} {arity : Nat} (harity : arity ≠ l.arity)
    (f : Unit → Outcome α) :
    ∃ failure, (l.checkMutable >>= fun _ => l.checkArity arity >>= f) = .error failure := by
  cases hmutable : l.checkMutable with
  | error failure => exact ⟨failure, rfl⟩
  | ok _ =>
    rw [TupleList.checkArity, if_neg harity]
    exact ⟨_, rfl⟩

theorem tuples_ne_nil_of_mismatches {arity : Nat} {source : TupleSource}
    (hsource : (extendFrom source).Mismatches arity) : source.tuples ≠ [] := by
  cases source with
  | list | product => exact hsource.2
  | rows declared tuples =>
    cases tuples with
    | nil => exact hsource.2
    | cons row rest => exact List.cons_ne_nil row rest

/-- The first tuple is one that the walk does not get past, or the declared arity is refused. -/
theorem exists_addTo_eq_of_mismatches {source : TupleSource} {row : Tuple} {rest : List Tuple}
    (hsource : (extendFrom source).Mismatches l.arity) (htuples : source.tuples = row :: rest) :
    ∃ failure, source.addTo l row = .error failure := by
  have hdeclared : source.reach row = .ok () → source.arity ≠ l.arity := by
    intro hreach
    cases source with
    | list | product => exact hsource.1
    | rows declared tuples =>
      obtain rfl : tuples = row :: rest := htuples
      have hlength : row.length = declared := checkLength_eq_ok_iff.mp hreach
      exact hsource.elim id fun hrow => hlength ▸ hrow
  rw [TupleSource.addTo]
  cases hreach : source.reach row with
  | error failure => exact ⟨failure, rfl⟩
  | ok => exact exists_checkArity_bind_eq (hdeclared hreach) _

/-- What is refused leaves the list as it was, whatever the list holds. -/
theorem run_eq_of_mismatches (l : TupleList) {step : Intake} (hstep : step.Mismatches l.arity) :
    (step.run l).1 = l ∧ ∃ failure, (step.run l).2 = .error failure := by
  have hsettle : ∀ {α : Type} {o : Outcome α} {f : α → TupleList × Answer},
      (∃ failure, o = .error failure) →
        (settle l (o.map f)).1 = l ∧ ∃ failure, (settle l (o.map f)).2 = .error failure := by
    rintro α o f ⟨failure, rfl⟩
    exact ⟨rfl, failure, rfl⟩
  cases step with
  | change step =>
    cases step with
    | push row | insert index row | set index row =>
      exact hsettle (exists_checkArity_bind_eq hstep _)
    | addCurrent | extendFrom | remove | clear | retain | sortBy | fix | copy => exact hstep.elim
  | addCurrent cursor => exact hsettle (exists_checkArity_bind_eq hstep _)
  | extendFrom source =>
    obtain ⟨failure, hextend⟩ : ∃ failure, l.extendFrom source = (l, .error failure) := by
      cases htuples : source.tuples with
      | nil => exact absurd htuples (tuples_ne_nil_of_mismatches hstep)
      | cons row rest =>
        obtain ⟨failure, hadd⟩ := exists_addTo_eq_of_mismatches hstep htuples
        exact ⟨failure, by rw [TupleList.extendFrom, htuples, TupleList.addRows, hadd]⟩
    rw [run, hextend]
    exact ⟨rfl, failure, rfl⟩

end Intake

namespace TupleList

variable {l longer : TupleList} {p : PlainList}

/-- A list that has taken a tuple over still stands for its rows just if the tuple is of its
arity. -/
theorem Represents.addCurrent_iff (hl : l.Represents p) {κ : Type} [Cursor κ] {cursor : κ}
    {row : Tuple} (hcurrent : Cursor.current cursor = .ok row)
    (hadd : l.addCurrent cursor = .ok longer) :
    longer.Represents { p with rows := p.rows ++ [row] } ↔ row.length = p.arity := by
  constructor
  · intro hlonger
    exact hlonger.row_length_eq (List.mem_append_right _ List.mem_cons_self)
  · intro hrow
    obtain ⟨storage, hstores, harity, hpush⟩ := Storage.Stores.push_eq hl.holds
      (hrow.trans hl.arity_eq.symm) l.limit
    rw [addCurrent, hcurrent, TupleList.addRow] at hadd
    obtain ⟨-, -, hadd⟩ := bind_eq_ok_iff.mp hadd
    obtain ⟨-, -, hadd⟩ := bind_eq_ok_iff.mp hadd
    rw [Outcome.ok_bind, hpush] at hadd
    obtain ⟨stored, hstored, hadd⟩ := bind_eq_ok_iff.mp hadd
    obtain ⟨-, -, hstored⟩ := bind_eq_ok_iff.mp hstored
    rw [← Except.ok.inj hadd, ← Except.ok.inj hstored]
    exact hl.of_stores hstores harity

theorem foldlM_addTo_eq (source : TupleSource) (tuples : List Tuple) (l : TupleList) :
    tuples.foldlM source.addTo l =
      (l.addRows source tuples).2.map fun _ => (l.addRows source tuples).1 := by
  induction tuples generalizing l with
  | nil => rfl
  | cons row rest ih =>
    rw [List.foldlM_cons, addRows]
    cases source.addTo l row with
    | error failure => rfl
    | ok longer => exact ih longer

/-- To copy a source is to extend an empty list by it. -/
theorem materialize_eq_extendFrom (source : TupleSource) (limit : RowLimit) :
    source.materialize limit = ((new source.arity limit).extendFrom source).2.map fun _ =>
      ((new source.arity limit).extendFrom source).1 :=
  foldlM_addTo_eq source source.tuples (new source.arity limit)

/-- What a list is given of a row does not depend on the other rows of the source. -/
theorem addRows_rows (declared : Nat) (stored other tuples : List Tuple) (l : TupleList) :
    l.addRows (.rows declared stored) tuples = l.addRows (.rows declared other) tuples := by
  induction tuples generalizing l with
  | nil => rfl
  | cons row rest ih =>
    have hadd : (TupleSource.rows declared stored).addTo l row =
      (TupleSource.rows declared other).addTo l row := rfl
    rw [addRows, addRows, hadd]
    cases (TupleSource.rows declared other).addTo l row with
    | error failure => rfl
    | ok longer => exact ih longer

theorem addRows_append {source : TupleSource} {before : List Tuple}
    (hbefore : (l.addRows source before).2 = .ok ()) (after : List Tuple) :
    l.addRows source (before ++ after) = (l.addRows source before).1.addRows source after := by
  induction before generalizing l with
  | nil => rfl
  | cons row rest ih =>
    rw [addRows] at hbefore
    rw [List.cons_append, addRows, addRows]
    cases hadd : source.addTo l row with
    | error failure =>
      rw [hadd] at hbefore
      cases hbefore
    | ok longer =>
      rw [hadd] at hbefore
      exact ih hbefore

/-- A walk ends at the first tuple of another length. What has been taken over before it stays. -/
theorem extendFrom_wrongLength {declared : Nat} {before : List Tuple} {row : Tuple}
    (hbefore : (l.extendFrom (.rows declared before)).2 = .ok ()) (hrow : row.length ≠ declared)
    (after : List Tuple) :
    l.extendFrom (.rows declared (before ++ row :: after)) =
      ((l.extendFrom (.rows declared before)).1, violate .tupleLength) := by
  have hreach : (TupleSource.rows declared before).reach row = violate .tupleLength := if_neg hrow
  have hadd : ∀ longer, (TupleSource.rows declared before).addTo longer row =
      violate .tupleLength := by
    intro longer
    rw [TupleSource.addTo, hreach]
    rfl
  calc l.extendFrom (.rows declared (before ++ row :: after))
    _ = l.addRows (.rows declared before) (before ++ row :: after) :=
        addRows_rows declared _ before _ l
    _ = (l.extendFrom (.rows declared before)).1.addRows (.rows declared before) (row :: after) :=
        addRows_append hbefore (row :: after)
    _ = ((l.extendFrom (.rows declared before)).1, violate .tupleLength) := by
        rw [addRows, hadd]
        rfl

end TupleList

namespace Sales

def pairFeed : TupleSource := .rows 2 [[firstYear, oslo], [firstYear, bergen]]

/-- Pairs of a year and a town, of which only the first is whole. -/
def raggedFeed : TupleSource := .rows 2 [[firstYear, bergen], [oslo], [firstYear, oslo]]

def intakeSteps : List Intake :=
  [.change (.push [oslo]), .extendFrom pairFeed, .extendFrom raggedFeed,
    .extendFrom (.rows 1 [[oslo]]), .addCurrent (RowCursor.mk 2 [] (some [firstYear, oslo])),
    .change (.remove 0)]

end Sales

end CubeCalc
