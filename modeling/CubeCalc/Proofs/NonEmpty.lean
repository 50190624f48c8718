import CubeCalc.Proofs.JoinTree
import CubeCalc.Proofs.MemberSet
import CubeCalc.Proofs.RollUp
import CubeCalc.Proofs.TypeSoundness
/-!
# Joins without empty cells

A join that leaves out empty cells evaluates the joins below it in the same way. These look at the
cells of rows that are still incomplete, with the missing members taken from the context. So a row
is lost if a part of it has an empty cell there, even where the cell of the whole is not empty. Seen
from the all members that does not happen, and the shape of a tree of joins does not matter.
-/

namespace CubeCalc

open Outcome

variable {cube : Cube} {config : CalcConfig} {ctx : Context} {c own left right : Calc}
  {rows first second : List Tuple} {limit : RowLimit}

/-! ### Sets that can be joined -/

/-- Without a limit, a source of rows of one length can be copied to a list. -/
theorem TupleSource.exists_materialize {source : TupleSource}
    (hrows : ∀ row ∈ source.tuples, row.length = source.arity) :
    ∃ l, source.materialize .unbounded = .ok l ∧
      l.Represents ⟨source.arity, source.tuples, true, .unbounded⟩ :=
  exists_materialize_of_allows hrows fun most hmost => by cases hmost

namespace Calc

/-- In a context that reaches all their members, the calc comes to some rows, and so does the list
that a join is handed for it. -/
structure ComesTo (c : Calc) (ctx : Context) (rows : List Tuple) : Prop where
  evaluate_eq : ∃ v, c.evaluate ctx = .ok v ∧ v.rows = rows
  asList_eq : ∃ own l p, c.asList false .unbounded = .ok own ∧ own.evaluate ctx = .ok (.list l) ∧
    l.Represents p ∧ p.rows = rows
  reaches : ∀ row ∈ rows, ∀ m ∈ row, ctx.Reaches m

theorem eq_of_checked (hchecked : c.checked = .ok own) : own = c := by
  unfold checked at hchecked
  split at hchecked
  · exact (Except.ok.inj hchecked).symm
  · cases hchecked

/-- What is asked of the literals in a list is asked of those in the set that it is made from. -/
theorem everySet_of_asList {p : List Calc → Bool} {isMutable : Bool}
    (hlist : c.asList isMutable limit = .ok own) (hown : own.everySet p = true) :
    c.everySet p = true := by
  obtain ⟨set, hset, hadapt⟩ := bind_eq_ok_iff.mp hlist
  obtain ⟨⟨style, adaptation⟩, -, hadapted⟩ := bind_eq_ok_iff.mp hadapt
  have hsame : set = c := by
    unfold asSet demand at hset
    split at hset
    · exact (Except.ok.inj hset).symm
    · cases hset
  subst hsame
  cases adaptation with
  | asIs =>
    obtain rfl := Except.ok.inj hadapted
    exact hown
  | materialize =>
    simp only [adapted, makePackedList] at hadapted
    split at hadapted
    · obtain rfl := eq_of_checked hadapted
      exact everySet_child hown List.mem_cons_self
    · cases hadapted
  | copy =>
    obtain rfl := eq_of_checked hadapted
    exact everySet_child hown List.mem_cons_self

/-- A list of members is joined as it is. -/
theorem Lists.comesTo {members : List Member} (hc : c.Lists ctx members)
    (hlist : c.asList false .unbounded = .ok c) (hmembers : ∀ m ∈ members, ctx.Reaches m)
    (nonEmpty : Bool) : c.ComesTo (ctx.setNonEmpty nonEmpty) (members.map fun m => [m]) := by
  obtain ⟨isMutable, hvalue⟩ := hc nonEmpty
  have hrep := TupleList.Represents.of_unary members.toArray isMutable .unbounded
  refine ⟨⟨_, hvalue, rfl⟩, ⟨c, _, _, hlist, hvalue, hrep, rfl⟩, ?_⟩
  intro row hrow m hm
  obtain ⟨own, hown, rfl⟩ := List.mem_map.mp hrow
  rw [List.mem_singleton.mp hm]
  exact hmembers own hown

end Calc

/-- The rows that a join keeps, which are all unless empty cells are left out. -/
def Context.keeps (ctx : Context) (row : Tuple) : Bool := !ctx.nonEmpty || ctx.fills row

namespace Calc

theorem exists_source_crossJoin {l r : TupleList} {p q : PlainList} (hl : l.Represents p)
    (hr : r.Represents q) (hleft : left.evaluate ctx = .ok (.list l))
    (hright : right.evaluate ctx = .ok (.list r))
    (hreaches : ∀ row ∈ pairRows p.rows q.rows, ∀ m ∈ row, ctx.Reaches m) :
    ∃ source : TupleSource,
      evaluate ctx (.crossJoin left right .unbounded) = .ok (.iterable source) ∧
      source.tuples = (pairRows p.rows q.rows).filter ctx.keeps ∧
      ∀ row ∈ source.tuples, row.length = source.arity := by
  rw [evaluate_crossJoin_eq hleft hright]
  cases hempty : ctx.nonEmpty with
  | false =>
    have hkeeps : ctx.keeps = fun _ => true := by
      funext row
      simp [Context.keeps, hempty]
    have hsource : (TupleSource.product l r).tuples = pairRows p.rows q.rows :=
      productRows_eq hl hr
    refine ⟨.product l r, rfl, ?_, ?_⟩
    · rw [hsource, hkeeps, List.filter_true]
    · intro row hrow
      rw [hsource] at hrow
      rw [length_of_mem_pairRows hl hr hrow, ← hl.arity_eq, ← hr.arity_eq]
      rfl
  | true =>
    have hkeeps : ctx.keeps = ctx.fills := by
      funext row
      simp [Context.keeps, hempty]
    have hselects := nonEmptyProduct_selects hl hr hreaches (RowLimit.counts_unbounded _ _)
    rcases hselects.cases_of_tests fun row _ => ⟨ctx.fills row, rfl⟩ with
      ⟨-, kept, hkept, hrep⟩ | ⟨most, hmost, -⟩
    · have hsource : (TupleSource.list kept.fixed).tuples =
          (pairRows p.rows q.rows).filter ctx.fills := hrep.holds.rows_eq
      refine ⟨.list kept.fixed, ?_, ?_, ?_⟩
      · rw [hkept]
        rfl
      · rw [hsource, hkeeps]
      · intro row hrow
        rw [hsource] at hrow
        exact hrep.holds.uniform row hrow
    · cases hmost

theorem ComesTo.crossJoin (hleft : left.ComesTo ctx first) (hright : right.ComesTo ctx second)
    {ownLeft ownRight : Calc} (hl : left.asList false .unbounded = .ok ownLeft)
    (hr : right.asList false .unbounded = .ok ownRight) :
    (Calc.crossJoin ownLeft ownRight .unbounded).ComesTo ctx
      ((pairRows first second).filter ctx.keeps) := by
  obtain ⟨_, l, p, hlist, hleftValue, hleftRep, rfl⟩ := hleft.asList_eq
  obtain rfl := Except.ok.inj (hl.symm.trans hlist)
  obtain ⟨_, r, q, hlist, hrightValue, hrightRep, rfl⟩ := hright.asList_eq
  obtain rfl := Except.ok.inj (hr.symm.trans hlist)
  have hreaches : ∀ row ∈ pairRows p.rows q.rows, ∀ m ∈ row, ctx.Reaches m := by
    intro row hrow m hm
    obtain ⟨before, hbefore, after, hafter, rfl⟩ := mem_pairRows.mp hrow
    rcases List.mem_append.mp hm with hm | hm
    · exact hleft.reaches before hbefore m hm
    · exact hright.reaches after hafter m hm
  obtain ⟨source, hsource, htuples, hlength⟩ :=
    exists_source_crossJoin hleftRep hrightRep hleftValue hrightValue hreaches
  obtain ⟨packed, hpacked, hrep⟩ := source.exists_materialize hlength
  refine ⟨⟨_, hsource, htuples⟩, ⟨_, packed.fixed, _, rfl, ?_, hrep.fixed, htuples⟩, ?_⟩
  · rw [evaluate, hsource]
    simp only [Value.toSource, Outcome.ok_bind, hpacked]
    rfl
  · exact fun row hrow => hreaches row (List.mem_of_mem_filter hrow)

end Calc

/-! ### Trees of joins -/

/-- The expression that joins sets in the shape of a tree. -/
def JoinTree.exp : JoinTree Exp → Exp
  | .leaf set => set
  | .join left right => .crossJoin left.exp right.exp

namespace Compiler

variable {compiler : Compiler} {s t : JoinTree Exp} {set : Exp} {row : Tuple}

/-- The parts of a compiled join are compiled, and taken over as lists. -/
theorem exists_of_compile_join {p : List Calc → Bool}
    (hcompile : compiler.compile (JoinTree.join s t).exp = .ok c) (hc : c.everySet p = true) :
    ∃ first second left right, compiler.compile s.exp = .ok first ∧ first.everySet p = true ∧
      compiler.compile t.exp = .ok second ∧ second.everySet p = true ∧
      first.asList false compiler.limit = .ok left ∧
      second.asList false compiler.limit = .ok right ∧
      c = .crossJoin left right compiler.limit := by
  rw [JoinTree.exp, compile] at hcompile
  obtain ⟨first, hfirst, hcompile⟩ := bind_eq_ok_iff.mp hcompile
  obtain ⟨left, hleft, hcompile⟩ := bind_eq_ok_iff.mp hcompile
  obtain ⟨second, hsecond, hcompile⟩ := bind_eq_ok_iff.mp hcompile
  obtain ⟨right, hright, hcompile⟩ := bind_eq_ok_iff.mp hcompile
  obtain rfl := Except.ok.inj hcompile
  have hleftSet : left.everySet p = true := Calc.everySet_child hc List.mem_cons_self
  have hrightSet : right.everySet p = true :=
    Calc.everySet_child hc (List.mem_cons_of_mem _ List.mem_cons_self)
  exact ⟨first, second, left, right, hfirst, Calc.everySet_of_asList hleft hleftSet, hsecond,
    Calc.everySet_of_asList hright hrightSet, hleft, hright, rfl⟩

theorem exists_compile_leaf {p : List Calc → Bool} (hcompile : compiler.compile t.exp = .ok c)
    (hc : c.everySet p = true) (hset : set ∈ t.leaves) :
    ∃ own, compiler.compile set = .ok own ∧ own.everySet p = true := by
  induction t generalizing c with
  | leaf leaf =>
    rw [List.mem_singleton.mp hset]
    exact ⟨c, hcompile, hc⟩
  | join s t ihs iht =>
    obtain ⟨first, second, _, _, hfirst, hfirstSet, hsecond, hsecondSet, -⟩ :=
      exists_of_compile_join hcompile hc
    rcases List.mem_append.mp hset with hset | hset
    · exact ihs hfirst hfirstSet hset
    · exact iht hsecond hsecondSet hset

/-- The rows of a set while empty cells are kept. -/
def rowsOf (compiler : Compiler) (ctx : Context) (set : Exp) : List Tuple :=
  match compiler.compile set >>= Calc.evaluate (ctx.setNonEmpty false) with
  | .ok v => v.rows
  | .error _ => []

theorem rowsOf_eq {members : List Member} (hcompile : compiler.compile set = .ok c)
    (hc : c.Lists ctx members) : compiler.rowsOf ctx set = members.map fun m => [m] := by
  obtain ⟨isMutable, hvalue⟩ := hc false
  rw [rowsOf, hcompile, Outcome.ok_bind, hvalue]
  rfl

section Unlimited

variable (hlimit : compiler.limit = .unbounded) (hctx : ctx.HasPlaces compiler.cube)
include hlimit hctx

theorem length_of_mem_rowsOf (hset : set.IsMemberSet) (hcompile : compiler.compile set = .ok c)
    (hslots : c.everySet Calc.reservable = true) (hrow : row ∈ compiler.rowsOf ctx set) :
    row.length = 1 := by
  obtain ⟨-, members, hlists, -⟩ := exists_lists hset hlimit hctx hcompile hslots
  rw [rowsOf_eq hcompile hlists] at hrow
  obtain ⟨m, -, rfl⟩ := List.mem_map.mp hrow
  rfl

/-- A compiled tree of joins comes to the rows that its joins keep. -/
theorem comesTo_rows (hcube : compiler.cube.IsNamed) (nonEmpty : Bool)
    (hleaves : ∀ set ∈ t.leaves, set.IsMemberSet) (hcompile : compiler.compile t.exp = .ok c)
    (hslots : c.everySet Calc.reservable = true) :
    c.ComesTo (ctx.setNonEmpty nonEmpty)
      (t.rows (ctx.setNonEmpty nonEmpty).keeps (compiler.rowsOf ctx)) := by
  induction t generalizing c with
  | leaf set =>
    have hset : set.IsMemberSet := hleaves set List.mem_cons_self
    rw [JoinTree.exp] at hcompile
    obtain ⟨hlist, members, hlists, hmembers⟩ := exists_lists hset hlimit hctx hcompile hslots
    rw [JoinTree.rows, rowsOf_eq hcompile hlists]
    apply hlists.comesTo hlist
    intro m hm
    obtain ⟨h, hh, hmem⟩ := hmembers m hm
    exact hctx.reaches hcube hh hmem
  | join s t ihs iht =>
    obtain ⟨hs, ht⟩ := JoinTree.forall_leaves_join.mp hleaves
    obtain ⟨first, second, left, right, hfirst, hfirstSet, hsecond, hsecondSet, hleft, hright,
      rfl⟩ := exists_of_compile_join hcompile hslots
    rw [hlimit] at hleft hright ⊢
    exact (ihs hs hfirst hfirstSet).crossJoin (iht ht hsecond hsecondSet) hleft hright

/-- A tree of joins comes to all pairs of its sets, and without empty cells to those that survive
at each of its joins. -/
theorem exists_values (hcube : compiler.cube.IsNamed)
    (hleaves : ∀ set ∈ t.leaves, set.IsMemberSet) (hcompile : compiler.compile t.exp = .ok c)
    (hslots : c.everySet Calc.reservable = true) :
    ∃ all kept, c.evaluate (ctx.setNonEmpty false) = .ok all ∧
      c.evaluate (ctx.setNonEmpty true) = .ok kept ∧
      all.rows = t.allRows (compiler.rowsOf ctx) ∧
      kept.rows = all.rows.filter (t.survives ctx.fills) := by
  obtain ⟨all, hall, hallRows⟩ :=
    (comesTo_rows hlimit hctx hcube false hleaves hcompile hslots).evaluate_eq
  obtain ⟨kept, hkept, hkeptRows⟩ :=
    (comesTo_rows hlimit hctx hcube true hleaves hcompile hslots).evaluate_eq
  have hlength : ∀ set ∈ t.leaves, ∀ row ∈ compiler.rowsOf ctx set, row.length = 1 := by
    intro set hset row hrow
    obtain ⟨own, hown, hownSet⟩ := exists_compile_leaf hcompile hslots hset
    exact length_of_mem_rowsOf hlimit hctx (hleaves set hset) hown hownSet hrow
  have heq : all.rows = t.allRows (compiler.rowsOf ctx) := hallRows
  refine ⟨all, kept, hall, hkept, heq, ?_⟩
  rw [heq, ← JoinTree.rows_eq_filter hlength]
  exact hkeptRows

end Unlimited

/-- Seen from above, no row that fills a cell is lost, whatever the shape. -/
theorem filter_survives_eq (hrows : ∀ row ∈ rows, ctx.Overlooks row)
    (hfacts : ctx.facts.AddsUp (ctx.members.map Member.hierarchy)) :
    rows.filter ((s.join t).survives ctx.fills) = rows.filter ctx.fills := by
  rw [JoinTree.filter_survives_eq_iff]
  intro row hrow hfills
  apply JoinTree.survives_of_isInfix
  intro part hpart
  exact (hrows row hrow).fills_part hfacts hpart hfills

/-- Without empty cells, nested joins come to those rows that survive at each join. No empty cell is
left, and nothing is lost exactly if no row that fills a cell is dropped by a join below. If the
context stands at all members and has numbers below it, a join below never does that, so that the
sets can be joined in any other shape. -/
theorem nonEmpty_join (hlimit : compiler.config.resultLimit ≤ 0) (hcube : compiler.cube.IsNamed)
    (hctx : ctx.HasPlaces compiler.cube) (hleaves : ∀ set ∈ (s.join t).leaves, set.IsMemberSet)
    (hcompile : compiler.compile (s.join t).exp = .ok c)
    (hslots : c.everySet Calc.reservable = true) :
    ∃ all kept, c.evaluate (ctx.setNonEmpty false) = .ok all ∧
      c.evaluate (ctx.setNonEmpty true) = .ok kept ∧
      kept.rows = all.rows.filter ((s.join t).survives ctx.fills) ∧
      kept.rows.Sublist (all.rows.filter ctx.fills) ∧
      (kept.rows = all.rows.filter ctx.fills ↔
        ∀ row ∈ all.rows, ctx.fills row = true → (s.join t).survives ctx.fills row = true) ∧
      ((∀ row ∈ all.rows, ctx.Overlooks row) →
        ctx.facts.AddsUp (ctx.members.map Member.hierarchy) →
        kept.rows = all.rows.filter ctx.fills ∧
        ∀ (s' t' : JoinTree Exp) (c' : Calc), (s'.join t').leaves = (s.join t).leaves →
          compiler.compile (s'.join t').exp = .ok c' → c'.everySet Calc.reservable = true →
          ∃ other, c'.evaluate (ctx.setNonEmpty true) = .ok other ∧ other.rows = kept.rows) := by
  have hunbounded : compiler.limit = .unbounded := by
    rw [limit, CalcConfig.limit, RowLimit.ofInt, if_pos hlimit]
  obtain ⟨all, kept, hall, hkept, hallRows, hkeptRows⟩ :=
    exists_values hunbounded hctx hcube hleaves hcompile hslots
  refine ⟨all, kept, hall, hkept, hkeptRows, ?_, ?_, fun hrows hfacts => ⟨?_, ?_⟩⟩
  · rw [hkeptRows]
    exact JoinTree.filter_survives_sublist ctx.fills s t all.rows
  · rw [hkeptRows]
    exact JoinTree.filter_survives_eq_iff
  · rw [hkeptRows, filter_survives_eq hrows hfacts]
  · intro s' t' c' hsame hcompile' hslots'
    obtain ⟨all', kept', -, hkept', hallRows', hkeptRows'⟩ :=
      exists_values hunbounded hctx hcube (hsame ▸ hleaves) hcompile' hslots'
    have hall' : all'.rows = all.rows := by
      rw [hallRows', hallRows, JoinTree.allRows_eq_of_leaves_eq hsame]
    refine ⟨kept', hkept', ?_⟩
    calc kept'.rows = all.rows.filter ((s'.join t').survives ctx.fills) := by rw [hkeptRows', hall']
      _ = all.rows.filter ctx.fills := filter_survives_eq hrows hfacts
      _ = all.rows.filter ((s.join t).survives ctx.fills) := (filter_survives_eq hrows hfacts).symm
      _ = kept.rows := hkeptRows.symm

end Compiler

/-! ### Orders of a client -/

namespace Sales

open HierarchyBuilder

def ware : Hierarchy := ((withAll "Ware").addMember none "Tea").build.toOption.get rfl

def client : Hierarchy :=
  (((withAll "Client").addMember none "Ann").addMember none "Bo").build.toOption.get rfl

def tea : Member := ware.members.get ⟨1, by decide⟩

def ann : Member := client.members.get ⟨1, by decide⟩

def bo : Member := client.members.get ⟨2, by decide⟩

/-- One order of tea by one of two clients, seen from the all members. -/
def ordered : Context :=
  .root ⟨"Orders", [time, ware, client]⟩ ⟨3, [([firstYear, tea, bo], .number 1)]⟩

/-- Tea in a year, and then the clients who ordered it. -/
def orders : JoinTree Exp :=
  .join (.join (.leaf (.set [.member "2023"])) (.leaf (.set [.member "Tea"])))
    (.leaf (.members "Client"))

def ordersCalc : Calc :=
  .crossJoin
    (.packedList
      (.crossJoin (.setLiteral [.memberLiteral time firstYear] .unbounded)
        (.setLiteral [.memberLiteral ware tea] .unbounded) .unbounded)
      .list .unbounded)
    (.hierarchyMembers client .unbounded) .unbounded

theorem orders_leaves : ∀ set ∈ orders.leaves, set.IsMemberSet := by
  change ∀ set ∈ [Exp.set [.member "2023"], .set [.member "Tea"], .members "Client"],
    set.IsMemberSet
  simp only [List.forall_mem_cons, List.not_mem_nil, false_imp_iff, implies_true, and_true]
  exact ⟨.literal ["2023"], .literal ["Tea"], .members "Client"⟩

/-- The two of three rows that have something ordered. -/
def orderedRows : List Tuple :=
  [[firstYear, tea, .all "Client" "All Clients"], [firstYear, tea, bo]]

theorem ordered_isNamed : ordered.cube.IsNamed := by
  unfold Cube.IsNamed
  decide

theorem evaluate_orders :
    ∃ kept, ordersCalc.evaluate (ordered.setNonEmpty true) = .ok kept ∧
      kept.rows = orderedRows := by
  have hcompile : (Compiler.mk ordered.cube {}).compile orders.exp = .ok ordersCalc := rfl
  obtain ⟨all, kept, hall, hkept, -, -, -, habove⟩ :=
    Compiler.nonEmpty_join (by decide) ordered_isNamed ⟨rfl, rfl⟩ orders_leaves hcompile rfl
  have hvalue : ∃ v, ordersCalc.evaluate (ordered.setNonEmpty false) = .ok v ∧
      (∀ row ∈ v.rows, ordered.Overlooks row) ∧ v.rows.filter ordered.fills = orderedRows :=
    ⟨_, rfl, by decide, rfl⟩
  obtain ⟨v, hv, hrows, hfilter⟩ := hvalue
  obtain rfl := Except.ok.inj (hall.symm.trans hv)
  have hfacts : ordered.facts.AddsUp (ordered.members.map Member.hierarchy) :=
    ⟨by decide, by decide⟩
  exact ⟨kept, hkept, (habove hrows hfacts).1.trans hfilter⟩

/-- The same sets in the other shape. -/
def ordersByYear : JoinTree Exp :=
  .join (.leaf (.set [.member "2023"]))
    (.join (.leaf (.set [.member "Tea"])) (.leaf (.members "Client")))

def ordersByYearCalc : Calc :=
  .crossJoin (.setLiteral [.memberLiteral time firstYear] .unbounded)
    (.packedList
      (.crossJoin (.setLiteral [.memberLiteral ware tea] .unbounded)
        (.hierarchyMembers client .unbounded) .unbounded)
      .list .unbounded) .unbounded

/-- Seen from the client who has ordered nothing, tea has an empty cell. So it is gone before the
client who has ordered it is looked at, unless the clients are joined to it first. -/
theorem evaluate_orders_from_ann :
    (Compiler.mk ordered.cube {}).compile orders.exp = .ok ordersCalc ∧
    (∃ all kept, ordersCalc.evaluate ((ordered.override [ann]).setNonEmpty false) = .ok all ∧
      ordersCalc.evaluate ((ordered.override [ann]).setNonEmpty true) = .ok kept ∧
      all.rows.filter (ordered.override [ann]).fills = orderedRows ∧ kept.rows = []) ∧
    ordersByYear.leaves = orders.leaves ∧
    (Compiler.mk ordered.cube {}).compile ordersByYear.exp = .ok ordersByYearCalc ∧
    ∃ kept, ordersByYearCalc.evaluate ((ordered.override [ann]).setNonEmpty true) = .ok kept ∧
      kept.rows = orderedRows := by
  have hcompile : (Compiler.mk ordered.cube {}).compile orders.exp = .ok ordersCalc := rfl
  have hcompile' : (Compiler.mk ordered.cube {}).compile ordersByYear.exp = .ok ordersByYearCalc :=
    rfl
  have hslots : ordersCalc.everySet Calc.reservable = true := rfl
  have hslots' : ordersByYearCalc.everySet Calc.reservable = true := rfl
  have hleaves' : ∀ set ∈ ordersByYear.leaves, set.IsMemberSet := orders_leaves
  have hplaces : (ordered.override [ann]).HasPlaces ordered.cube := ⟨rfl, rfl⟩
  obtain ⟨all, -, hall, -, hallRows, -⟩ :=
    Compiler.exists_values rfl hplaces ordered_isNamed orders_leaves hcompile hslots
  obtain ⟨all', kept', -, hkept', hallRows', hkeptRows'⟩ :=
    Compiler.exists_values rfl hplaces ordered_isNamed hleaves' hcompile' hslots'
  have hrows : all'.rows = all.rows := hallRows'.trans hallRows.symm
  refine ⟨hcompile, ⟨_, _, rfl, rfl, rfl, rfl⟩, rfl, hcompile', kept', hkept', ?_⟩
  rw [hkeptRows', hrows, ← Except.ok.inj hall]
  rfl

end Sales

end CubeCalc
