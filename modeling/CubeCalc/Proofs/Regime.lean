import CubeCalc.Calc.Evaluate
import CubeCalc.Proofs.TupleList
import Mathlib.Data.List.Forall2
/-!
# Regimes

What can be promised of an evaluation depends on what is known of the contexts in which it takes
place. A regime fixes which contexts are considered, when a member counts as one of a hierarchy, and
which failures are to be expected. Lists and sources are judged by it row by row, and walking a
source stays within it.
-/

namespace CubeCalc

/-- What is taken for granted of contexts and members, and the failures that are to be expected. -/
structure Regime (cube : Cube) (limit : RowLimit) where
  stands : Context → Prop
  belongs : Member → Hierarchy → Prop
  allows : Failure → Prop
  own {h : Hierarchy} {m : Member} : h ∈ cube.hierarchies → m ∈ h.members → belongs m h
  parent {h : Hierarchy} {m parent : Member} : h ∈ cube.hierarchies → belongs m h →
    m.parent? = some parent → belongs parent h
  child {ctx : Context} {h : Hierarchy} {m child : Member} : stands ctx → h ∈ cube.hierarchies →
    belongs m h → child ∈ ctx.childrenOf m → belongs child h
  current {ctx : Context} {h : Hierarchy} : stands ctx → h ∈ cube.hierarchies →
    Outcome.Meets (belongs · h) allows (ctx.member h)
  moveAll {ctx : Context} {row : Tuple} {hs : List Hierarchy} : stands ctx →
    (∀ h ∈ hs, h ∈ cube.hierarchies) → List.Forall₂ belongs row hs →
      Outcome.Meets stands allows (ctx.moveAll row)
  contextFor {ctx : Context} (c : Calc) (simplify : Bool) : stands ctx →
    Outcome.Meets stands allows (c.contextFor simplify ctx)
  exceeded {attempted most : Nat} : limit.rows? = some most → most < attempted →
    allows (.error (.limitExceeded attempted most))
  notNumber {kind : ValueKind} : kind = .boolean ∨ kind = .string →
    allows (.error (.kindMismatch .numeric kind))
  notBoolean : allows (.error (.kindMismatch .boolean .string))

namespace Regime

open Outcome

variable {cube : Cube} {limit : RowLimit} {r : Regime cube limit} {hs : List Hierarchy}
  {l : TupleList} {row : Tuple}

/-! ### Lists -/

/-- A list of rows with a member of each of some hierarchies. It keeps within the limit, as long as
the members that the limit allows for can be counted. -/
structure Lists (r : Regime cube limit) (hs : List Hierarchy) (l : TupleList) : Prop where
  holds : l.Holds l.rows
  arity_eq : l.arity = hs.length
  rows_belong : ∀ row ∈ l.rows, List.Forall₂ r.belongs row hs
  limit_eq : l.limit = limit
  allows : limit.clamp l.rows.length * hs.length < wordBound → limit.Allows l.rows.length

namespace Lists

theorem length_eq (hl : r.Lists hs l) : l.length = l.rows.length := hl.holds.length_eq

theorem fixed (hl : r.Lists hs l) : r.Lists hs l.fixed :=
  ⟨hl.holds, hl.arity_eq, hl.rows_belong, hl.limit_eq, hl.allows⟩

theorem copy (hl : r.Lists hs l) : r.Lists hs l.copy :=
  ⟨hl.holds, hl.arity_eq, hl.rows_belong, hl.limit_eq, hl.allows⟩

/-- Rows are changed at once, as long as there are not more of them. -/
theorem of_holds (hl : r.Lists hs l) {storage : Storage} {rows : List Tuple} {isMutable : Bool}
    (hstores : storage.Stores rows) (harity : storage.arity = l.arity)
    (hrows : ∀ row ∈ rows, List.Forall₂ r.belongs row hs)
    (hallows : limit.clamp rows.length * hs.length < wordBound → limit.Allows rows.length) :
    r.Lists hs ⟨storage, isMutable, l.limit⟩ := by
  have heq : TupleList.rows ⟨storage, isMutable, l.limit⟩ = rows := hstores.rows_eq
  refine ⟨heq ▸ hstores, harity.trans hl.arity_eq, heq ▸ hrows, hl.limit_eq, ?_⟩
  rw [heq]
  exact hallows

/-- Room for another row is room within the limit, as long as the members can be counted. -/
theorem meets_room (hl : r.Lists hs l) :
    Meets (fun _ => limit.clamp l.rows.length * hs.length < wordBound →
        limit.Allows (l.rows.length + 1))
      r.allows (l.storage.room l.limit) := by
  have hcheck : Meets (fun _ => limit.Allows (l.rows.length + 1)) r.allows
      (limit.check (l.rows.length + 1)) := by
    rcases limit.check_cases (l.rows.length + 1) with ⟨hok, hallows⟩ | ⟨most, hmost, hlt, hfail⟩
    · exact hok ▸ hallows
    · exact hfail ▸ r.exceeded hmost hlt
  rw [hl.limit_eq]
  by_cases hcount : limit.clamp l.rows.length * hs.length < wordBound
  · rw [hl.holds.room_eq (by rwa [← hl.arity_eq] at hcount)]
    exact hcheck.mono (fun _ h _ => h) fun _ h => h
  · rcases hl.holds.room_cases limit with hok | hroom
    · rw [hok]
      exact fun h => absurd h hcount
    · rw [hroom]
      exact hcheck.mono (fun _ h _ => h) fun _ h => h

/-- A row of members that belong is taken over, or exceeds the limit. -/
theorem push (hl : r.Lists hs l) (hmutable : l.isMutable = true)
    (hrow : List.Forall₂ r.belongs row hs) :
    Meets (fun l => r.Lists hs l ∧ l.isMutable = true) r.allows (l.push row) := by
  have hlength : row.length = l.arity := by rw [hl.arity_eq, hrow.length_eq]
  obtain ⟨storage, hstores, harity, hpush⟩ := TupleList.push_eq hl.holds hmutable hlength
  rw [hpush]
  refine hl.meets_room.bind fun _ hallows =>
    ⟨hl.of_holds hstores harity ?_ fun hcount => ?_, hmutable⟩
  · intro other hother
    rcases List.mem_append.mp hother with hold | hnew
    · exact hl.rows_belong other hold
    · rw [List.mem_singleton.mp hnew]
      exact hrow
  · rw [List.length_append, List.length_singleton] at hcount ⊢
    refine hallows (Nat.lt_of_le_of_lt (Nat.mul_le_mul_right _ ?_) hcount)
    exact limit.clamp_mono (Nat.le_succ _)

/-- Sorting leaves a list the same rows. -/
theorem sortBy (hl : r.Lists hs l) (hmutable : l.isMutable = true)
    (compare : Tuple → Tuple → Ordering) :
    Meets (fun l => r.Lists hs l ∧ l.isMutable = true) r.allows (l.sortBy compare) := by
  have hsorted := List.mergeSort_perm l.rows fun a b => (compare a b).isLE
  obtain ⟨hstores, harity⟩ := Storage.Stores.refill hl.holds fun row hrow =>
    hl.holds.uniform row (hsorted.mem_iff.mp hrow)
  simp only [TupleList.sortBy, TupleList.checkMutable, hmutable, if_true, Outcome.ok_bind]
  refine ⟨hl.of_holds hstores harity (fun row hrow => ?_) fun hcount => ?_, rfl⟩
  · exact hl.rows_belong row (hsorted.mem_iff.mp hrow)
  · rw [hsorted.length_eq] at hcount ⊢
    exact hl.allows hcount

theorem productRows_belong {left right : TupleList} {hsLeft hsRight : List Hierarchy}
    (hleft : r.Lists hsLeft left) (hright : r.Lists hsRight right) :
    ∀ row ∈ productRows left right, List.Forall₂ r.belongs row (hsLeft ++ hsRight) := by
  intro row hrow
  obtain ⟨first, hfirst, hmap⟩ := List.mem_flatMap.mp hrow
  obtain ⟨second, hsecond, rfl⟩ := List.mem_map.mp hmap
  have hbelong := hleft.rows_belong first hfirst
  have hbelong' := hright.rows_belong second hsecond
  rw [hleft.arity_eq, hright.arity_eq, ← hbelong.length_eq, ← hbelong'.length_eq,
    List.take_length, List.take_length]
  exact List.rel_append hbelong hbelong'

end Lists

theorem lists_new (hs : List Hierarchy) : r.Lists hs (TupleList.new hs.length limit) := by
  obtain ⟨hholds, harity⟩ := TupleList.new_holds hs.length limit
  have hrows := hholds.rows_eq
  exact ⟨hrows ▸ hholds, harity, by simp [hrows], rfl, by simp [hrows, RowLimit.Allows]⟩

theorem lists_ofMembers {h : Hierarchy} {members : List Member}
    (hmembers : ∀ m ∈ members, r.belongs m h) :
    Meets (fun l => r.Lists [h] l ∧ l.isMutable = true) r.allows
      (TupleList.ofMembers members limit) := by
  obtain ⟨l, hholds, harity, hmutable, hlimit, hmake⟩ := TupleList.ofMembers_eq members limit
  have hrows := hholds.rows_eq
  have hlist : limit.Allows members.length → r.Lists [h] l := by
    intro hallows
    refine ⟨hrows ▸ hholds, harity, ?_, hlimit, fun _ => by simpa [hrows] using hallows⟩
    rw [hrows]
    intro row hrow
    obtain ⟨m, hm, rfl⟩ := List.mem_map.mp hrow
    exact .cons (hmembers m hm) .nil
  rw [hmake]
  rcases limit.check_cases members.length with ⟨hok, hallows⟩ | ⟨most, hmost, hlt, hfail⟩
  · rw [hok]
    exact ⟨hlist hallows, hmutable⟩
  · rw [hfail]
    exact r.exceeded hmost hlt

/-! ### Sources -/

/-- A source of rows with a member of each of some hierarchies. -/
def Sources (r : Regime cube limit) (hs : List Hierarchy) : TupleSource → Prop
  | .list l => r.Lists hs l
  | .product left right => ∃ hsLeft hsRight, hs = hsLeft ++ hsRight ∧ r.Lists hsLeft left ∧
    r.Lists hsRight right ∧ limit.Allows (productLength left right)
  | .rows _ _ => False

variable {source : TupleSource}

namespace Sources

theorem arity_eq (hsource : r.Sources hs source) : source.arity = hs.length := by
  cases source with
  | list l => exact Lists.arity_eq hsource
  | product left right =>
    obtain ⟨hsLeft, hsRight, rfl, hleft, hright, -⟩ := hsource
    rw [TupleSource.arity, hleft.arity_eq, hright.arity_eq, List.length_append]
  | rows arity tuples => exact hsource.elim

theorem rows_belong (hsource : r.Sources hs source) :
    ∀ row ∈ source.tuples, List.Forall₂ r.belongs row hs := by
  cases source with
  | list l => exact Lists.rows_belong hsource
  | product left right =>
    obtain ⟨hsLeft, hsRight, rfl, hleft, hright, -⟩ := hsource
    exact hleft.productRows_belong hright
  | rows arity tuples => exact hsource.elim

theorem length_eq (hsource : r.Sources hs source) (hrow : row ∈ source.tuples) :
    row.length = source.arity := by
  rw [hsource.arity_eq, (hsource.rows_belong row hrow).length_eq]

/-- The rows are as long as the source says, so that they are taken over as they are. -/
theorem wholeRow_eq (hsource : r.Sources hs source) (hrow : row ∈ source.tuples) :
    source.wholeRow row = .ok row := TupleSource.wholeRow_eq (hsource.length_eq hrow)

theorem reach_eq (hsource : r.Sources hs source) (hrow : row ∈ source.tuples) :
    source.reach row = .ok () := TupleSource.reach_eq (hsource.length_eq hrow)

/-- A row of a source is taken over by a list of the same hierarchies. -/
theorem addRow (hsource : r.Sources hs source) (hrow : row ∈ source.tuples) (hl : r.Lists hs l)
    (hmutable : l.isMutable = true) :
    Meets (fun l => r.Lists hs l ∧ l.isMutable = true) r.allows
      (l.addRow source.arity (source.wholeRow row)) := by
  have hbelong := hsource.rows_belong row hrow
  rw [hsource.wholeRow_eq hrow, hsource.arity_eq, ← hbelong.length_eq, TupleList.addRow_eq]
  exact hl.push hmutable hbelong

theorem materialize (hsource : r.Sources hs source) :
    Meets (fun l => r.Lists hs l ∧ l.isMutable = true) r.allows (source.materialize limit) := by
  refine meets_foldlM ?_ fun l row hrow hl => ?_
  · rw [hsource.arity_eq]
    exact ⟨lists_new hs, rfl⟩
  · rw [TupleSource.addTo, hsource.reach_eq hrow]
    exact hsource.addRow hrow hl.1 hl.2

end Sources

/-! ### Walking -/

theorem enter_eq (ctx : Context) {arity : Nat} (hrow : row.length = arity) :
    ctx.enter arity row = ctx.moveAll row := by
  subst hrow
  simp [Context.enter, List.take_length]

/-- A walk visits the rows of a source in contexts of the regime. -/
theorem meets_walk {β : Type} {P : β → Prop} {ctx : Context} {start : β}
    {visit : β → Tuple → Context → Outcome β} (hsource : r.Sources hs source)
    (hhs : ∀ h ∈ hs, h ∈ cube.hierarchies) (hctx : r.stands ctx) (hstart : P start)
    (hvisit : ∀ result row here, row ∈ source.tuples → r.stands here → P result →
      Meets P r.allows (visit result row here)) :
    Meets P r.allows (source.walk ctx start visit) := by
  rw [TupleSource.walk]
  refine Meets.bind (P := fun state : β × Context => P state.1 ∧ r.stands state.2) ?_
    fun state h => h.1
  refine meets_foldlM ⟨hstart, hctx⟩ fun state row hrow hstate => ?_
  obtain ⟨result, here⟩ := state
  simp only [hsource.reach_eq hrow, enter_eq here (hsource.length_eq hrow), Outcome.ok_bind]
  refine (r.moveAll hstate.2 hhs (hsource.rows_belong row hrow)).bind fun here hhere => ?_
  exact (hvisit result row here hrow hhere hstate.1).bind fun result hresult => ⟨hresult, hhere⟩

theorem meets_nonEmptyProduct {ctx : Context} {left right : TupleList}
    {hsLeft hsRight : List Hierarchy}
    (hleft : r.Lists hsLeft left) (hright : r.Lists hsRight right)
    (hhs : ∀ h ∈ hsLeft ++ hsRight, h ∈ cube.hierarchies) (hctx : r.stands ctx) :
    Meets (fun l => r.Lists (hsLeft ++ hsRight) l ∧ l.isMutable = true) r.allows
      (nonEmptyProduct ctx left right limit) := by
  have hnew := lists_new (r := r) (hsLeft ++ hsRight)
  rw [List.length_append, ← hleft.arity_eq, ← hright.arity_eq] at hnew
  refine meets_foldlM ⟨hnew, rfl⟩ fun kept row hrow hkept => ?_
  have hbelong := hleft.productRows_belong hright row hrow
  refine Meets.bind (P := fun _ => True) ?_ fun value _ => ?_
  · exact (r.moveAll hctx hhs hbelong).bind fun _ _ => trivial
  · split
    · exact hkept
    · exact hkept.1.push hkept.2 hbelong

end Regime

end CubeCalc
