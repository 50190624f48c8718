import CubeCalc.Proofs.PlainList
import CubeCalc.Tuple.Lazy
import CubeCalc.Tuple.Sort
/-!
# Fixed lists

A list that is fixed refuses whatever is asked of it before it looks at anything else, so that the
refusal does not depend on what is asked. There is one gap: a sequence is taken over tuple by tuple,
and before the walk has come to its first tuple nobody asks whether the list may be changed.
-/

namespace CubeCalc

open ListStep (settle Answer)

/-- What a list can be asked for, with arguments of any kind. Cursors need not stand on a tuple,
predicates and comparisons need not come to an end, and no arity or position need fit. -/
inductive Mutation : Type 1 where
  | push (row : Tuple)
  | addCurrent {κ : Type} [Cursor κ] (cursor : κ)
  | extendFrom (source : TupleSource)
  | set (index : Nat) (row : Tuple)
  | insert (index : Nat) (row : Tuple)
  | remove (index : Nat)
  | clear
  | retain {σ : Type} (keep : σ → Tuple → Outcome (Bool × σ)) (state : σ)
  | sortBy (compare : Tuple → Tuple → Ordering)
  | sortByKeys (keys : List SortKey)

namespace Mutation

def run (l : TupleList) : Mutation → TupleList × Outcome Answer
  | .push row => settle l ((l.push row).map (·, .done))
  | @addCurrent _ _ cursor => settle l ((l.addCurrent cursor).map (·, .done))
  | .extendFrom source => ((l.extendFrom source).1, (l.extendFrom source).2.map fun _ => .done)
  | .set index row => settle l ((l.set index row).map fun result => (result.2, .row result.1))
  | .insert index row => settle l ((l.insert index row).map (·, .done))
  | .remove index => settle l ((l.remove index).map fun result => (result.2, .row result.1))
  | .clear => settle l (l.clear.map (·, .done))
  | .retain keep state =>
    settle l ((l.retain keep state).map fun result => (result.1, .state result.2))
  | .sortBy compare => settle l ((l.sortBy compare).map (·, .done))
  | .sortByKeys keys => ((l.sortByKeys keys).1, (l.sortByKeys keys).2.map fun _ => .done)

/-- One thing after the other, with all answers. -/
def runAll (l : TupleList) : List Mutation → TupleList × List (Outcome Answer)
  | [] => (l, [])
  | m :: rest =>
    let after := runAll (m.run l).1 rest
    (after.1, (m.run l).2 :: after.2)

def refusal : Outcome Answer := .error (.error .immutableList)

def wrongLength : Outcome Answer := .error (.violation .tupleLength)

/-- There is no tuple that could be refused. -/
def BringsNothing : Mutation → Prop
  | .extendFrom source => source.tuples = []
  | _ => False

/-- The first tuple is one that a walk does not get past. -/
def BreaksOff : Mutation → Prop
  | .extendFrom (.rows arity (row :: _)) => row.length ≠ arity
  | _ => False

end Mutation

namespace TupleList

variable {l : TupleList}

theorem checkMutable_bind (hl : l.isMutable = false) {α : Type} (next : Unit → Outcome α) :
    (l.checkMutable >>= next) = fail .immutableList := by
  rw [checkMutable, hl]
  rfl

theorem extendFrom_of_tuples_eq_nil {source : TupleSource} (htuples : source.tuples = [])
    (l : TupleList) : l.extendFrom source = (l, .ok ()) := by
  rw [extendFrom, htuples]
  rfl

/-- The first tuple is refused, and the others are not looked at. -/
theorem extendFrom_of_tuples_eq_cons (hl : l.isMutable = false) {source : TupleSource} {row : Tuple}
    {rest : List Tuple} (htuples : source.tuples = row :: rest) :
    l.extendFrom source = (l, source.reach row >>= fun _ => fail .immutableList) := by
  have hadd : source.addTo l row = source.reach row >>= fun _ => fail .immutableList :=
    Outcome.bind_congr fun _ _ => checkMutable_bind hl _
  rw [extendFrom, htuples, addRows, hadd]
  cases source.reach row <;> rfl

theorem extendFrom_of_not_breaksOff (hl : l.isMutable = false) {source : TupleSource}
    (htuples : source.tuples ≠ []) (hwalk : ¬ (Mutation.extendFrom source).BreaksOff) :
    l.extendFrom source = (l, fail .immutableList) := by
  obtain ⟨row, rest, hrows⟩ := List.exists_cons_of_ne_nil htuples
  have hreach : source.reach row = .ok () := by
    cases source with
    | list | product => rfl
    | rows arity tuples =>
      obtain rfl : tuples = row :: rest := hrows
      exact if_pos (Classical.not_not.mp hwalk)
  rw [extendFrom_of_tuples_eq_cons hl hrows, hreach]
  rfl

theorem extendFrom_of_breaksOff (hl : l.isMutable = false) {source : TupleSource}
    (hwalk : (Mutation.extendFrom source).BreaksOff) :
    l.extendFrom source = (l, violate .tupleLength) := by
  cases source with
  | list | product => exact hwalk.elim
  | rows arity tuples =>
    cases tuples with
    | nil => exact hwalk.elim
    | cons row rest =>
      have hreach : (TupleSource.rows arity (row :: rest)).reach row = violate .tupleLength :=
        if_neg hwalk
      rw [extendFrom_of_tuples_eq_cons hl rfl, hreach]
      rfl

theorem sortByKeys_of_fixed (hl : l.isMutable = false) (keys : List SortKey) :
    l.sortByKeys keys = (l, fail .immutableList) := by
  have hcheck : l.checkMutable = fail .immutableList := by
    rw [checkMutable, hl]
    rfl
  rw [sortByKeys, hcheck]
  rfl

/-- A step that begins by asking whether the list may be changed comes to the refusal. -/
theorem settle_checkMutable_bind (hl : l.isMutable = false) {α : Type}
    (next : Unit → Outcome α) (answer : α → TupleList × Answer) :
    settle l ((l.checkMutable >>= next).map answer) = (l, Mutation.refusal) := by
  rw [checkMutable_bind hl]
  rfl

theorem run_eq_of_fixed (hl : l.isMutable = false) {m : Mutation} (hm : ¬ m.BringsNothing)
    (hwalk : ¬ m.BreaksOff) : m.run l = (l, Mutation.refusal) := by
  cases m with
  | extendFrom source =>
    rw [Mutation.run, extendFrom_of_not_breaksOff hl hm hwalk]
    rfl
  | sortByKeys keys =>
    rw [Mutation.run, sortByKeys_of_fixed hl keys]
    rfl
  | push | addCurrent | set | insert | remove | clear | retain | sortBy =>
    exact settle_checkMutable_bind hl _ _

theorem run_eq_of_bringsNothing {m : Mutation} (hm : m.BringsNothing) (l : TupleList) :
    m.run l = (l, .ok .done) := by
  cases m with
  | extendFrom source =>
    rw [Mutation.run, extendFrom_of_tuples_eq_nil hm]
    rfl
  | push | addCurrent | set | insert | remove | clear | retain | sortBy | sortByKeys =>
    exact hm.elim

theorem run_eq_of_breaksOff (hl : l.isMutable = false) {m : Mutation} (hm : m.BreaksOff) :
    m.run l = (l, Mutation.wrongLength) := by
  cases m with
  | extendFrom source =>
    rw [Mutation.run, extendFrom_of_breaksOff hl hm]
    rfl
  | push | addCurrent | set | insert | remove | clear | retain | sortBy | sortByKeys =>
    exact hm.elim

theorem run_fst_of_fixed (hl : l.isMutable = false) (m : Mutation) : (m.run l).1 = l := by
  by_cases hm : m.BringsNothing
  · rw [run_eq_of_bringsNothing hm]
  by_cases hwalk : m.BreaksOff
  · rw [run_eq_of_breaksOff hl hwalk]
  · rw [run_eq_of_fixed hl hm hwalk]

/-- A list that is fixed stays as it is, whatever is asked of it and however often, and it refuses
all of that with the one error, in whatever other way it could be refused. A sequence without tuples
alone is taken over without a question, and where the walk over a sequence does not get past the
first tuple nobody comes to ask. -/
theorem fixed_refuses (hl : l.isMutable = false) :
    (∀ m : Mutation, (m.run l).1 = l ∧
      ((m.run l).2 = Mutation.refusal ↔ ¬ m.BringsNothing ∧ ¬ m.BreaksOff) ∧
      (m.BringsNothing → (m.run l).2 = .ok .done) ∧
      (m.BreaksOff → (m.run l).2 = Mutation.wrongLength)) ∧
    ∀ ms : List Mutation, Mutation.runAll l ms = (l, ms.map fun m => (m.run l).2) := by
  constructor
  · intro m
    refine ⟨run_fst_of_fixed hl m, ⟨fun hrefused => ⟨fun hm => ?_, fun hwalk => ?_⟩, ?_⟩,
      fun hm => ?_, fun hwalk => ?_⟩
    · rw [run_eq_of_bringsNothing hm] at hrefused
      cases hrefused
    · rw [run_eq_of_breaksOff hl hwalk] at hrefused
      cases hrefused
    · rintro ⟨hm, hwalk⟩
      rw [run_eq_of_fixed hl hm hwalk]
    · rw [run_eq_of_bringsNothing hm]
    · rw [run_eq_of_breaksOff hl hwalk]
  · intro ms
    induction ms with
    | nil => rfl
    | cons m rest ih => rw [Mutation.runAll, run_fst_of_fixed hl m, ih, List.map_cons]

end TupleList

namespace Sales

def fixedPairs : TupleList := TupleList.fixed
  ⟨.packed ⟨2, #[.all "Time" "All Times", .all "Town" "All Towns"], 2⟩, true, .ofInt 1⟩

/-- A row too short, a position past the end, a cursor that stands nowhere and a sequence of another
arity, of which a list that may be changed would each refuse for a reason of its own. -/
def misfits : List Mutation :=
  [.set 5 [], .insert 7 [], .addCurrent (RowCursor.start 2 []),
    .extendFrom (.rows 1 [[.all "Town" "All Towns"], []])]

theorem fixedPairs_refuses :
    Mutation.runAll fixedPairs misfits = (fixedPairs, List.replicate 4 Mutation.refusal) := by
  obtain ⟨-, hall⟩ := TupleList.fixed_refuses (rfl : fixedPairs.isMutable = false)
  rw [hall misfits]
  rfl

theorem emptySource_taken_over :
    (TupleList.empty 2).isMutable = false ∧
      (Mutation.extendFrom (.list (TupleList.new 1 .unbounded))).run (TupleList.empty 2) =
        (TupleList.empty 2, .ok .done) ∧
      (Mutation.extendFrom (.list (TupleList.new 1 .unbounded))).run (TupleList.empty 2) ≠
        (TupleList.empty 2, Mutation.refusal) := by
  refine ⟨rfl, rfl, fun hrefused => ?_⟩
  have hanswer := congrArg Prod.snd hrefused
  cases hanswer

end Sales

end CubeCalc
