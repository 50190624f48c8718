import CubeCalc.Proofs.Cursor
import CubeCalc.Proofs.Dependency
import CubeCalc.Proofs.Evaluators
import CubeCalc.Proofs.Override
import CubeCalc.Proofs.Selection
import CubeCalc.Proofs.Tallies
import CubeCalc.Proofs.WholeNumbers
/-!
# Iterating over sets

Filters and aggregates walk a set in one context that is moved on from tuple to tuple and never put
back. Where all tuples name the same hierarchies nobody can tell: each tuple is looked at in the
caller's context overridden by that tuple alone, because it takes the place of whatever the tuples
before it have left.
-/

namespace CubeCalc

open Outcome

/-! ### Walks -/

/-- All rows of a source name the same hierarchies, column by column. -/
structure TupleSource.Names (source : TupleSource) (names : List String) : Prop where
  arity_eq : source.arity = names.length
  rows_eq : ∀ row ∈ source.tuples, row.map Member.hierarchy = names

namespace TupleSource.Names

variable {source : TupleSource} {names : List String} {row : Tuple}

theorem length_eq (hsource : source.Names names) (hrow : row ∈ source.tuples) :
    row.length = source.arity := by
  rw [hsource.arity_eq, ← hsource.rows_eq row hrow, List.length_map]

/-- A walk that never goes back visits each row as if it had been started there. What carries the
induction is that the context has come to where the rows ahead lead to the same contexts from it as
from the caller's. -/
theorem walk_eq (hsource : source.Names names) {β : Type} (ctx : Context) (start : β)
    (visit : β → Tuple → Context → Outcome β) :
    source.walk ctx start visit =
      source.tuples.foldlM (fun result row => ctx.moveAll row >>= visit result row) start := by
  have hrows : ∀ (rows : List Tuple), (∀ row ∈ rows, row ∈ source.tuples) →
      ∀ (here : Context) (result : β), (∀ row ∈ rows, here.moveAll row = ctx.moveAll row) →
        (TupleSource.rows source.arity rows).walk here result visit =
          rows.foldlM (fun result row => ctx.moveAll row >>= visit result row) result := by
    intro rows
    induction rows with
    | nil =>
      intro _ here result _
      rfl
    | cons row rest ih =>
      intro hmem here result hhere
      rw [List.forall_mem_cons] at hmem hhere
      rw [walk_rows_cons (hsource.length_eq hmem.1), hhere.1, List.foldlM_cons, bind_assoc]
      apply Outcome.bind_congr
      intro there hthere
      apply Outcome.bind_congr
      intro next _
      apply ih hmem.2
      intro other hother
      have hnames : row.map Member.hierarchy = other.map Member.hierarchy := by
        rw [hsource.rows_eq row hmem.1, hsource.rows_eq other (hmem.2 other hother)]
      exact Context.moveAll_of_moveAll hthere hnames
  rw [walk_eq_walk_rows fun _ => hsource.length_eq]
  exact hrows source.tuples (fun _ h => h) ctx start fun _ _ => rfl

theorem reach_eq (hsource : source.Names names) (hrow : row ∈ source.tuples) :
    source.reach row = .ok () := TupleSource.reach_eq (hsource.length_eq hrow)

end TupleSource.Names

/-! ### At each tuple -/

namespace Calc

/-- The source that a set is walked as, which is evaluated in a context of its own. -/
def sourceIn (set : Calc) (simplify : Bool) (ctx : Context) : Outcome TupleSource := do
  (← set.evaluate (← set.contextFor simplify ctx)).toSource

/-- The value in a context overridden by a tuple, its members set in column order. -/
def evaluateAt (c : Calc) (ctx : Context) (row : Tuple) : Outcome Value := do
  c.evaluate (← ctx.moveAll row)

/-- Whether the calc holds in a context overridden by a tuple. -/
def holdsAt (c : Calc) (ctx : Context) (row : Tuple) : Outcome Bool := do
  (← c.evaluateAt ctx row).toBoolean

end Calc

/-- The results of a list, folded as they come, are the results of all, folded afterwards. -/
theorem foldlM_bind_pure {α β σ : Type} (f : α → Outcome β) (g : σ → β → σ) :
    ∀ (l : List α) (start : σ),
      l.foldlM (fun state a => f a >>= fun b => pure (g state b)) start =
        (l.mapM f).map fun results => results.foldl g start
  | [], start => rfl
  | a :: rest, start => by
    rw [List.foldlM_cons, List.mapM_cons, bind_assoc, map_bind]
    apply Outcome.bind_congr
    intro b _
    rw [pure_bind, foldlM_bind_pure f g rest (g start b), map_bind]
    cases rest.mapM f <;> rfl

/-! ### Filters, aggregates and counts -/

namespace Calc

variable {set : Calc} {simplify : Bool} {ctx : Context} {source : TupleSource}
  {names : List String}

theorem evaluate_filter_selects (hset : set.sourceIn simplify ctx = .ok source)
    (hsource : source.Names names) (condition : Calc) {limit : RowLimit}
    (hcount : limit.Counts (source.tuples.filter (passes (condition.holdsAt ctx))).length
      source.arity) :
    ∃ o, Selects source.arity limit (condition.holdsAt ctx) source.tuples o ∧
      evaluate ctx (.filter set condition limit simplify) = o.map .list := by
  let keep : TupleList → Tuple → Outcome TupleList := fun kept row => do
    let here ← ctx.moveAll row
    if ← (← evaluate here condition).toBoolean then
      kept.addRow source.arity (source.wholeRow row)
    else return kept
  have hkeep : ∀ kept row, row ∈ source.tuples → keep kept row =
      condition.holdsAt ctx row >>= fun passed => if passed then kept.push row else .ok kept := by
    intro kept row hrow
    have hlength := hsource.length_eq hrow
    simp only [keep, holdsAt, evaluateAt, bind_assoc]
    rw [TupleSource.wholeRow_eq hlength, ← hlength, TupleList.addRow_eq]
    rfl
  refine ⟨_, selects_foldlM (fun row hrow => hsource.length_eq hrow) hkeep hcount, ?_⟩
  rw [sourceIn, ← bind_assoc] at hset
  rw [evaluate, ← bind_assoc, ← bind_assoc, hset, Outcome.ok_bind, hsource.walk_eq]
  rfl

theorem evaluate_aggregate_eq (hset : set.sourceIn simplify ctx = .ok source)
    (hsource : source.Names names) (value : Calc) (function : AggregateFunction) :
    evaluate ctx (.aggregate set value function simplify) =
      (source.tuples.mapM (value.evaluateAt ctx)).map fun values =>
        ((Value.statistics values).compute function).elim .null .number := by
  have hvisit : (fun (statistics : Accumulator Double) row => ctx.moveAll row >>= fun here => do
        return statistics.add (← evaluate here value).observation) =
      fun statistics row => value.evaluateAt ctx row >>= fun v =>
        pure (statistics.add v.observation) := by
    funext statistics row
    exact (bind_assoc _ _ _).symm
  rw [sourceIn, ← bind_assoc] at hset
  rw [evaluate, ← bind_assoc, ← bind_assoc, hset, Outcome.ok_bind, hsource.walk_eq, hvisit,
    foldlM_bind_pure, Outcome.bind_map]
  cases source.tuples.mapM (value.evaluateAt ctx) <;> rfl

theorem evaluate_walkCount_eq (hset : set.sourceIn simplify ctx = .ok source)
    (hsource : source.Names names) :
    evaluate ctx (.walkCount set simplify) =
      .ok (.number (Double.ofNat source.tuples.length)) := by
  rw [sourceIn, ← bind_assoc] at hset
  rw [evaluate, ← bind_assoc, ← bind_assoc, hset, Outcome.ok_bind,
    TupleSource.count_of_reach fun _ => hsource.reach_eq]
  rfl

theorem evaluate_listCount_eq {l : TupleList} (hset : set.evaluate ctx = .ok (.list l)) :
    evaluate ctx (.listCount set) = .ok (.number (Double.ofNat l.rows.length)) := by
  rw [evaluate, hset, l.length_rows]
  rfl

/-- Each tuple of a set is looked at alone. If all tuples name the same hierarchies, a filter keeps
those in whose contexts its condition holds, and an aggregate adds what its value comes to in these
contexts, where each of them is the caller's own overridden by one tuple. The first failure on the
way is the result. What an aggregate comes to follows from the numbers among the values, in order,
and from how many values are there. To count the tuples by walking is to count them in a list, and
a count is exact as long as doubles are. By an evaluator each of these and every other calc comes to
the same, and the caller's evaluator stands where it stood, whatever the calc comes to. -/
theorem iteration_eq_each_alone (hset : set.sourceIn simplify ctx = .ok source)
    (hsource : source.Names names) :
    (∀ (condition : Calc) (limit : RowLimit),
      limit.Counts (source.tuples.filter (passes (condition.holdsAt ctx))).length source.arity →
      ∃ o, Selects source.arity limit (condition.holdsAt ctx) source.tuples o ∧
        evaluate ctx (.filter set condition limit simplify) = o.map .list) ∧
    (∀ (value : Calc) (function : AggregateFunction),
      evaluate ctx (.aggregate set value function simplify) =
        (source.tuples.mapM (value.evaluateAt ctx)).map fun values =>
          ((Value.statistics values).compute function).elim .null .number) ∧
    (∀ (values : List Value) (function : AggregateFunction),
      (Value.statistics values).compute function =
        (if (Value.numbers values).length < function.needed then none
          else function.resultOf? (Value.present values) (Value.numbers values)) ∧
      Value.statistics values = Value.statistics (values.filter fun v => !v.isNull) ∧
      (function ≠ .count → (Value.statistics values).compute function =
        (Value.statistics (values.filter Value.isNumber)).compute function)) ∧
    evaluate ctx (.walkCount set simplify) =
      .ok (.number (Double.ofNat source.tuples.length)) ∧
    Cursor.Runs source.cursor source.tuples.length ∧
    (∀ l, set.evaluate ctx = .ok (.list l) →
      evaluate ctx (.listCount set) = .ok (.number (Double.ofNat l.rows.length))) ∧
    (∀ n < 2 ^ 53, (Double.ofNat n).exactValue = n) ∧
    ∀ (c : Calc) (evaluators : List Evaluator) (caller depth : Nat),
      evaluators[caller]? = some ⟨ctx, depth⟩ →
        ∃ copies, (c.evaluateBy caller).run.run evaluators =
          (c.evaluate ctx, evaluators ++ copies) := by
  refine ⟨?_, ?_, ?_, ?_, ?_, ?_, ?_, ?_⟩
  · intro condition limit hcount
    exact evaluate_filter_selects hset hsource condition hcount
  · intro value function
    exact evaluate_aggregate_eq hset hsource value function
  · intro values function
    refine ⟨(Value.statistics_tallies values).compute_eq function, ?_, ?_⟩
    · exact (Value.statistics_filter_not_isNull values).symm
    · intro hfunction
      exact (Value.compute_filter_isNumber values hfunction).symm
  · exact evaluate_walkCount_eq hset hsource
  · exact TupleSource.runs_cursor fun _ => hsource.reach_eq
  · intro l hl
    exact evaluate_listCount_eq hl
  · intro n hn
    exact Double.exactValue_ofNat hn
  · intro c evaluators caller depth hcaller
    exact c.spares_evaluateBy caller ctx evaluators depth hcaller

end Calc

namespace Sales

def allTowns : Calc := .hierarchyMembers town .unbounded

def soldTowns : Calc := .filter allTowns .currentValue .unbounded true

/-- What is paid in a town, more where something is sold. -/
def fee : Calc :=
  .iif .currentValue (.constant (.number ⟨0x4008000000000000⟩))
    (.constant (.number ⟨0x3FF0000000000000⟩))

/-- The one sale is in Oslo. It is counted although it is no number, and the fee is three there and
one in the other town. -/
theorem evaluate_soldTowns :
    (∃ l copies, soldTowns.evaluate sold = .ok (.list l) ∧ l.rows = [[oslo]] ∧
      (soldTowns.evaluateBy 0).run.run [⟨sold, 7⟩] = (.ok (.list l), ⟨sold, 7⟩ :: copies)) ∧
    (Calc.aggregate allTowns .currentValue .count true).evaluate sold =
      .ok (.number (.ofNat 1)) ∧
    (Calc.aggregate allTowns fee .sum true).evaluate sold = .ok (.number (.ofNat 4)) ∧
    (Calc.walkCount allTowns true).evaluate sold = .ok (.number (.ofNat 2)) ∧
    (Calc.listCount allTowns).evaluate sold = .ok (.number (.ofNat 2)) ∧
    (Double.ofNat 2).exactValue = 2 := by
  let towns : TupleList := ⟨.unary town.members.toArray, false, .unbounded⟩
  have hset : allTowns.sourceIn true sold = .ok (.list towns) := rfl
  have hnames : (TupleSource.list towns).Names ["Town"] := ⟨rfl, by decide⟩
  obtain ⟨hfilter, haggregate, hcompute, hwalk, -, hlist, hexact, hcaller⟩ :=
    Calc.iteration_eq_each_alone hset hnames
  refine ⟨?_, ?_, ?_, hwalk, hlist towns rfl, hexact 2 (by decide)⟩
  · obtain ⟨o, hselects, heq⟩ :=
      hfilter .currentValue .unbounded (RowLimit.counts_unbounded _ _)
    have htests : ∀ row ∈ (TupleSource.list towns).tuples,
        ∃ passed, Calc.currentValue.holdsAt sold row = .ok passed := by
      change ∀ row ∈ [[oslo], [bergen]], _
      simp only [List.forall_mem_cons, List.not_mem_nil, false_imp_iff, implies_true, and_true]
      exact ⟨⟨true, rfl⟩, ⟨false, rfl⟩⟩
    obtain ⟨copies, hrun⟩ := hcaller soldTowns [⟨sold, 7⟩] 0 7 rfl
    rcases hselects.cases_of_tests htests with ⟨-, l, rfl, hl⟩ | ⟨most, hmost, -⟩
    · have hsold : soldTowns.evaluate sold = .ok (.list l) := heq
      rw [hsold] at hrun
      exact ⟨l, copies, hsold, hl.holds.rows_eq, hrun⟩
    · cases hmost
  · have hvalues : (TupleSource.list towns).tuples.mapM (Calc.currentValue.evaluateAt sold) =
        .ok [.boolean true, .null] := rfl
    rw [haggregate, hvalues, Outcome.map_ok, (hcompute _ _).1]
    rfl
  · have hvalues : (TupleSource.list towns).tuples.mapM (fee.evaluateAt sold) =
        .ok [.number ⟨0x4008000000000000⟩, .number ⟨0x3FF0000000000000⟩] := rfl
    rw [haggregate, hvalues, Outcome.map_ok, (hcompute _ _).1]
    rfl

end Sales

end CubeCalc
