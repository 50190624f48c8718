import CubeCalc.Calc.Evaluate
import CubeCalc.Proofs.ListRefinement
/-!
# Selections

Filters, non-empty products and copies of a source have one loop: each row is put to a test, and
the rows that pass go into a new list as long as its limit has room for them. What the loop comes to
can be said without it. Either it keeps all rows that pass, or the first row that cannot be tested
or has no room is what it fails with.
-/

namespace CubeCalc

open Outcome

/-! ### Room for another row -/

/-- The members of some rows can be counted in a word, as far as the limit allows for the rows. So
can all members that are held in memory. -/
def RowLimit.Counts (limit : RowLimit) (count arity : Nat) : Prop :=
  ∀ most, limit.rows? = some most → min count most * arity < wordBound

theorem RowLimit.Counts.mono {limit : RowLimit} {fewer count arity : Nat}
    (hcount : limit.Counts count arity) (hle : fewer ≤ count) : limit.Counts fewer arity := by
  intro most hmost
  have hmin : min fewer most ≤ min count most := by omega
  exact Nat.lt_of_le_of_lt (Nat.mul_le_mul_right arity hmin) (hcount most hmost)

theorem RowLimit.counts_of_clamp {limit : RowLimit} {count arity : Nat}
    (hword : limit.clamp count * arity < wordBound) : limit.Counts count arity := by
  intro most hmost
  rwa [clamp, hmost] at hword

theorem RowLimit.counts_unbounded (count arity : Nat) : unbounded.Counts count arity := by
  intro most hmost
  cases hmost

variable {arity : Nat} {limit : RowLimit} {rows : List Tuple} {row : Tuple} {l : TupleList}

theorem TupleList.Represents.push_eq_room (hl : l.Represents ⟨arity, rows, true, limit⟩)
    (hrow : row.length = arity) :
    ∃ longer : TupleList, longer.Represents ⟨arity, rows ++ [row], true, limit⟩ ∧
      l.push row = (l.storage.room limit >>= fun _ => .ok longer) := by
  obtain ⟨storage, hstores, hstorage, hpush⟩ :=
    TupleList.push_eq hl.holds hl.isMutable_eq (hrow.trans hl.arity_eq.symm)
  have hlimit : l.limit = limit := hl.limit_eq
  refine ⟨{ l with storage }, hl.of_stores hstores hstorage, ?_⟩
  rw [hpush, hlimit]

/-- A list that counts its rows takes another one over if its limit allows one more. -/
theorem TupleList.Represents.push_eq_check (hl : l.Represents ⟨arity, rows, true, limit⟩)
    (hrow : row.length = arity) (hcount : limit.Counts rows.length arity) :
    ∃ longer : TupleList, longer.Represents ⟨arity, rows ++ [row], true, limit⟩ ∧
      l.push row = (limit.check (rows.length + 1) >>= fun _ => .ok longer) := by
  have hroom : l.storage.room limit = limit.check (rows.length + 1) := by
    cases hmost : limit.rows? with
    | none =>
      have hcheck : limit.check (rows.length + 1) = .ok () := by simp [RowLimit.check, hmost]
      rcases hl.holds.room_cases limit with hok | hroom
      · rw [hok, hcheck]
      · exact hroom
    | some most =>
      refine hl.holds.room_eq ?_
      have harity : l.storage.arity = arity := hl.arity_eq
      simpa only [RowLimit.clamp, hmost, harity] using hcount most hmost
  exact hroom ▸ hl.push_eq_room hrow

/-- What the limit allows is taken over, whether the members can be counted or not. -/
theorem TupleList.Represents.exists_push_eq (hl : l.Represents ⟨arity, rows, true, limit⟩)
    (hrow : row.length = arity) (hallows : limit.Allows (rows.length + 1)) :
    ∃ longer : TupleList, l.push row = .ok longer ∧
      longer.Represents ⟨arity, rows ++ [row], true, limit⟩ := by
  have hcheck : limit.check (rows.length + 1) = .ok () := by
    rcases limit.check_cases (rows.length + 1) with ⟨hok, -⟩ | ⟨most, hmost, hlt, -⟩
    · exact hok
    · exact absurd (hallows most hmost) (Nat.not_le.mpr hlt)
  have hroom : l.storage.room limit = .ok () := by
    rcases hl.holds.room_cases limit with hok | hroom
    · exact hok
    · exact hroom.trans hcheck
  obtain ⟨longer, hlonger, hpush⟩ := hl.push_eq_room hrow
  rw [hroom] at hpush
  exact ⟨longer, hpush, hlonger⟩

/-! ### What a selection comes to -/

/-- Whether a row is known to pass a test. -/
def passes (test : Tuple → Outcome Bool) (row : Tuple) : Bool :=
  match test row with
  | .ok passed => passed
  | .error _ => false

/-- The list of all rows, of some that have been tested, that have passed. -/
structure Keeps (arity : Nat) (limit : RowLimit) (test : Tuple → Outcome Bool)
    (rows : List Tuple) (l : TupleList) : Prop where
  tested : ∀ row ∈ rows, ∃ passed, test row = .ok passed
  represents : l.Represents ⟨arity, rows.filter (passes test), true, limit⟩
  allows : limit.Allows (rows.filter (passes test)).length

/-- All rows that pass a test, in order, or the first failure on the way: that of a test, or that of
a row that passes where the limit is reached. -/
inductive Selects (arity : Nat) (limit : RowLimit) (test : Tuple → Outcome Bool)
    (rows : List Tuple) : Outcome TupleList → Prop where
  | kept {l : TupleList} (hl : Keeps arity limit test rows l) :
    Selects arity limit test rows (.ok l)
  | failed {before after : List Tuple} {row : Tuple} {l : TupleList} {failure : Failure}
    (hrows : rows = before ++ row :: after) (hl : Keeps arity limit test before l)
    (htest : test row = .error failure) : Selects arity limit test rows (.error failure)
  | exceeded {before after : List Tuple} {row : Tuple} {l : TupleList} {most : Nat}
    (hrows : rows = before ++ row :: after) (hl : Keeps arity limit test before l)
    (htest : test row = .ok true) (hmost : limit.rows? = some most)
    (hfull : (before.filter (passes test)).length = most) :
    Selects arity limit test rows (fail (.limitExceeded (most + 1) most))

variable {test : Tuple → Outcome Bool} {before after : List Tuple}

namespace Keeps

theorem start (arity : Nat) (limit : RowLimit) (test : Tuple → Outcome Bool) :
    Keeps arity limit test [] (TupleList.new arity limit) where
  tested := by simp
  represents := .new arity limit
  allows most _ := Nat.zero_le most

theorem tested_append (hl : Keeps arity limit test before l) {passed : Bool}
    (htest : test row = .ok passed) : ∀ r ∈ before ++ [row], ∃ passed, test r = .ok passed := by
  intro r hr
  rcases List.mem_append.mp hr with hold | hnew
  · exact hl.tested r hold
  · exact ⟨passed, List.mem_singleton.mp hnew ▸ htest⟩

theorem pass_over (hl : Keeps arity limit test before l) (htest : test row = .ok false) :
    Keeps arity limit test (before ++ [row]) l := by
  have hsame : (before ++ [row]).filter (passes test) = before.filter (passes test) := by
    simp [List.filter_append, passes, htest]
  exact ⟨hl.tested_append htest, hsame ▸ hl.represents, hsame ▸ hl.allows⟩

/-- A row that passes is taken over, or it is the first that the limit has no room for. -/
theorem push (hl : Keeps arity limit test before l) (htest : test row = .ok true)
    (hrow : row.length = arity)
    (hcount : limit.Counts (before.filter (passes test)).length arity) :
    (∃ longer, l.push row = .ok longer ∧ Keeps arity limit test (before ++ [row]) longer) ∨
      ∃ most, limit.rows? = some most ∧ (before.filter (passes test)).length = most ∧
        l.push row = fail (.limitExceeded (most + 1) most) := by
  have hmore : (before ++ [row]).filter (passes test) = before.filter (passes test) ++ [row] := by
    simp [List.filter_append, passes, htest]
  obtain ⟨longer, hlonger, hpush⟩ := hl.represents.push_eq_check hrow hcount
  rcases limit.check_cases ((before.filter (passes test)).length + 1) with
    ⟨hok, hroom⟩ | ⟨most, hmost, hlt, hfail⟩
  · refine .inl ⟨longer, by rw [hpush, hok, Outcome.ok_bind], hl.tested_append htest,
      hmore ▸ hlonger, ?_⟩
    rw [hmore, List.length_append, List.length_singleton]
    exact hroom
  · have hfull : (before.filter (passes test)).length = most := by
      have hle := hl.allows most hmost
      omega
    refine .inr ⟨most, hmost, hfull, ?_⟩
    rw [hpush, hfail, hfull]
    rfl

end Keeps

section Loop

variable {step : TupleList → Tuple → Outcome TupleList}

/-- From where a loop has got to, it goes on to a selection of all rows. -/
theorem Keeps.selects (hlength : ∀ row ∈ rows, row.length = arity)
    (hstep : ∀ kept row, row ∈ rows →
      step kept row = test row >>= fun passed => if passed then kept.push row else .ok kept)
    (hcount : limit.Counts (rows.filter (passes test)).length arity)
    (hrows : rows = before ++ after) (hl : Keeps arity limit test before l) :
    Selects arity limit test rows (after.foldlM step l) := by
  induction after generalizing before l with
  | nil =>
    rw [List.append_nil] at hrows
    exact .kept (hrows ▸ hl)
  | cons row after ih =>
    have hmem : row ∈ rows := by simp [hrows]
    have hnext : rows = (before ++ [row]) ++ after := by simp [hrows]
    rw [List.foldlM_cons, hstep l row hmem]
    cases htest : test row with
    | error failure => exact .failed hrows hl htest
    | ok passed =>
      cases passed with
      | false => exact ih hnext (hl.pass_over htest)
      | true =>
        have hle : (before.filter (passes test)).length ≤ (rows.filter (passes test)).length := by
          simp [hrows, List.filter_append]
        rcases hl.push htest (hlength row hmem) (hcount.mono hle) with
          ⟨longer, hpush, hlonger⟩ | ⟨most, hmost, hfull, hpush⟩
        · simp only [Outcome.ok_bind, if_true, hpush]
          exact ih hnext hlonger
        · simp only [Outcome.ok_bind, if_true, hpush]
          exact .exceeded hrows hl htest hmost hfull

/-- A loop that pushes the rows that pass is a selection. -/
theorem selects_foldlM (hlength : ∀ row ∈ rows, row.length = arity)
    (hstep : ∀ kept row, row ∈ rows →
      step kept row = test row >>= fun passed => if passed then kept.push row else .ok kept)
    (hcount : limit.Counts (rows.filter (passes test)).length arity) :
    Selects arity limit test rows (rows.foldlM step (TupleList.new arity limit)) :=
  Keeps.selects hlength hstep hcount (List.nil_append rows).symm (.start arity limit test)

end Loop

namespace Selects

variable {o : Outcome TupleList}

/-- Where all rows can be tested, the limit alone decides. -/
theorem cases_of_tests (ho : Selects arity limit test rows o)
    (htests : ∀ row ∈ rows, ∃ passed, test row = .ok passed) :
    (limit.Allows (rows.filter (passes test)).length ∧ ∃ l : TupleList, o = .ok l ∧
        l.Represents ⟨arity, rows.filter (passes test), true, limit⟩) ∨
      ∃ most, limit.rows? = some most ∧ most < (rows.filter (passes test)).length ∧
        o = fail (.limitExceeded (most + 1) most) := by
  cases ho with
  | kept hl => exact .inl ⟨hl.allows, _, rfl, hl.represents⟩
  | @failed before after row l failure hrows hl htest =>
    obtain ⟨passed, hpassed⟩ := htests row (by simp [hrows])
    rw [htest] at hpassed
    cases hpassed
  | @exceeded before after row l most hrows hl htest hmost hfull =>
    refine .inr ⟨most, hmost, ?_, rfl⟩
    have hpasses : passes test row = true := by simp [passes, htest]
    simp only [hrows, List.filter_append, List.filter_cons, hpasses, if_true, List.length_append,
      List.length_cons, hfull]
    omega

end Selects

/-- A source of rows of one length is copied to a list, unless it has more rows than the limit
allows. -/
theorem TupleSource.materialize_cases {source : TupleSource}
    (hrows : ∀ row ∈ source.tuples, row.length = source.arity)
    (hcount : limit.Counts source.tuples.length source.arity) :
    (limit.Allows source.tuples.length ∧ ∃ l, source.materialize limit = .ok l ∧
        l.Represents ⟨source.arity, source.tuples, true, limit⟩) ∨
      ∃ most, limit.rows? = some most ∧ most < source.tuples.length ∧
        source.materialize limit = fail (.limitExceeded (most + 1) most) := by
  have hall : source.tuples.filter (passes fun _ => .ok true) = source.tuples := List.filter_true _
  have hselects : Selects source.arity limit (fun _ => .ok true) source.tuples
      (source.materialize limit) := by
    rw [materialize_eq_foldlM hrows]
    exact selects_foldlM hrows (fun _ _ _ => rfl) (hall.symm ▸ hcount)
  have hcases := hselects.cases_of_tests fun row _ => ⟨true, rfl⟩
  rwa [hall] at hcases

/-- A source is copied if the limit allows for its rows, also if their members are too many to be
counted. -/
theorem TupleSource.exists_materialize_of_allows {source : TupleSource}
    (hrows : ∀ row ∈ source.tuples, row.length = source.arity)
    (hallows : limit.Allows source.tuples.length) :
    ∃ l, source.materialize limit = .ok l ∧
      l.Represents ⟨source.arity, source.tuples, true, limit⟩ := by
  rw [materialize_eq_foldlM hrows]
  suffices hloop : ∀ (after before : List Tuple) (l : TupleList), source.tuples = before ++ after →
      l.Represents ⟨source.arity, before, true, limit⟩ →
      ∃ all, after.foldlM TupleList.push l = .ok all ∧
        all.Represents ⟨source.arity, source.tuples, true, limit⟩ from
    hloop source.tuples [] _ rfl (.new source.arity limit)
  intro after
  induction after with
  | nil =>
    intro before l hsplit hl
    rw [List.append_nil] at hsplit
    exact ⟨l, rfl, hsplit ▸ hl⟩
  | cons row rest ih =>
    intro before l hsplit hl
    have hless : limit.Allows (before.length + 1) := by
      intro most hmost
      refine Nat.le_trans ?_ (hallows most hmost)
      simp [hsplit]
    obtain ⟨longer, hpush, hlonger⟩ := hl.exists_push_eq (hrows row (by simp [hsplit])) hless
    rw [List.foldlM_cons, hpush]
    exact ih (before ++ [row]) longer (by simp [hsplit]) hlonger

end CubeCalc
