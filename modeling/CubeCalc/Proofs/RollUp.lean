import CubeCalc.Proofs.CrossJoin
/-!
# Roll-up

A cell has a value if there are facts below it, as long as all facts are numbers at coordinates of
the context. A context that stands at the all members of some hierarchies has below it whatever any
member of these hierarchies has below it. So from there a part of a tuple never has an empty cell
where the whole tuple has none.
-/

namespace CubeCalc

/-! ### Facts below a coordinate -/

theorem Member.isAncestorOrSelf_of_beq {m key : Member} (hkey : (key == m) = true)
    (hname : m.hierarchy = key.hierarchy) : m.isAncestorOrSelf key = true := by
  have hunique : key.uniqueName = m.uniqueName := beq_iff_eq.mp hkey
  have hself : (m == key) = true := by
    change (m.uniqueName == key.uniqueName) = true
    rw [hunique, beq_self_eq_true]
  have hmet : m.isMetAbove key = true := by
    cases key with
    | root label => exact hself
    | child parent label => rw [isMetAbove, hself, Bool.true_or]
  rw [isAncestorOrSelf, hmet, hname]
  simp

namespace FactTable

variable {coordinate key : List Member}

theorem covers_iff : covers coordinate key = true ↔ ∀ (i : Nat) (m k : Member),
    coordinate[i]? = some m → key[i]? = some k → m.isAncestorOrSelf k = true := by
  rw [covers, List.all_eq_true]
  constructor
  · intro hall i m k hm hk
    have hpair : (coordinate.zip key)[i]? = some (m, k) := by
      rw [List.getElem?_zip_eq_some]
      exact ⟨hm, hk⟩
    exact hall (m, k) (List.mem_of_getElem? hpair)
  · intro hall pair hpair
    obtain ⟨i, hi⟩ := List.getElem?_of_mem hpair
    rw [List.getElem?_zip_eq_some] at hi
    exact hall i pair.1 pair.2 hi.1 hi.2

/-- A coordinate covers itself. -/
theorem covers_of_beq (hkey : (key == coordinate) = true)
    (hnames : key.map Member.hierarchy = coordinate.map Member.hierarchy) :
    covers coordinate key = true := by
  induction coordinate generalizing key with
  | nil => rfl
  | cons m rest ih =>
    cases key with
    | nil => rfl
    | cons k others =>
      have hboth : (k == m) = true ∧ (others == rest) = true := Bool.and_eq_true_iff.mp hkey
      rw [List.map_cons, List.map_cons, List.cons.injEq] at hnames
      have hrest := ih hboth.2 hnames.2
      rw [covers] at hrest ⊢
      rw [List.zip_cons_cons, List.all_cons, hrest, Bool.and_true]
      exact Member.isAncestorOrSelf_of_beq hboth.1 hnames.1.symm

variable {α : Type} [Add α] [OfNat α 0] [OfNat α 1]

/-- Facts that are numbers have a sum, if there are any. -/
theorem total_eq_number {facts : List (CellValue α)}
    (hnumbers : ∀ fact ∈ facts, fact.asNumber?.isSome = true) (hfacts : facts ≠ []) :
    ∃ x, total facts = .number x := by
  have hread : ∀ {facts : List (CellValue α)}, (∀ fact ∈ facts, fact.asNumber?.isSome = true) →
      ∃ numbers, facts.mapM CellValue.asNumber? = some numbers ∧
        numbers.length = facts.length := by
    intro facts hnumbers
    induction facts with
    | nil => exact ⟨[], rfl, rfl⟩
    | cons fact rest ih =>
      rw [List.forall_mem_cons] at hnumbers
      obtain ⟨x, hx⟩ := Option.isSome_iff_exists.mp hnumbers.1
      obtain ⟨numbers, hrest, hlength⟩ := ih hnumbers.2
      refine ⟨x :: numbers, ?_, by simp [hlength]⟩
      rw [List.mapM_cons, hx, hrest]
      rfl
  obtain ⟨numbers, hmap, hlength⟩ := hread hnumbers
  rw [total, hmap]
  cases numbers with
  | nil => exact absurd (List.length_eq_zero_iff.mp hlength.symm) hfacts
  | cons x rest => exact ⟨_, rfl⟩

/-- Facts are numbers, at coordinates that name some hierarchies one by one. -/
structure AddsUp (t : FactTable α) (names : List String) : Prop where
  numbers : ∀ cell ∈ t.cells, cell.2.asNumber?.isSome = true
  names_eq : ∀ cell ∈ t.cells, cell.1.map Member.hierarchy = names

/-- A cell is a number if there are facts below it, and empty otherwise. -/
theorem AddsUp.valueAt_cases {t : FactTable α}
    (ht : t.AddsUp (coordinate.map Member.hierarchy)) :
    (∃ cell ∈ t.cells, covers coordinate cell.1 = true) ∧
        (t.valueAt coordinate).asNumber?.isSome = true ∨
      (∀ cell ∈ t.cells, covers coordinate cell.1 = false) ∧ t.valueAt coordinate = .empty := by
  rw [valueAt, get?]
  cases hfind : t.cells.find? fun cell => cell.1 == coordinate with
  | some cell =>
    have hmem := List.mem_of_find?_eq_some hfind
    have hkey := List.find?_some hfind
    exact .inl ⟨⟨cell, hmem, covers_of_beq hkey (ht.names_eq cell hmem)⟩, ht.numbers cell hmem⟩
  | none =>
    rw [Option.map_none, Option.getD_none, covered]
    by_cases hcovered : ∃ cell ∈ t.cells, covers coordinate cell.1 = true
    · left
      obtain ⟨cell, hmem, hcell⟩ := hcovered
      have hbelow : cell.2 ∈ (t.cells.filter fun cell => covers coordinate cell.1).map (·.2) :=
        List.mem_map_of_mem (List.mem_filter.mpr ⟨hmem, hcell⟩)
      have hnumbers : ∀ fact ∈ (t.cells.filter fun cell => covers coordinate cell.1).map (·.2),
          fact.asNumber?.isSome = true := by
        intro fact hfact
        obtain ⟨other, hother, rfl⟩ := List.mem_map.mp hfact
        exact ht.numbers other (List.mem_of_mem_filter hother)
      obtain ⟨x, hx⟩ := total_eq_number hnumbers (List.ne_nil_of_mem hbelow)
      exact ⟨⟨cell, hmem, hcell⟩, by rw [hx]; rfl⟩
    · right
      have hnone : ∀ cell ∈ t.cells, covers coordinate cell.1 = false := by simpa using hcovered
      have hfilter : (t.cells.filter fun cell => covers coordinate cell.1) = [] :=
        List.filter_eq_nil_iff.mpr fun cell hmem => by simp [hnone cell hmem]
      exact ⟨hnone, by rw [hfilter]; rfl⟩

end FactTable

/-! ### Contexts above a tuple -/

namespace Context

/-- The context stands at the all member of each hierarchy that the tuple has a member of, and the
tuple has one member of each at most. -/
structure Overlooks (ctx : Context) (row : Tuple) : Prop where
  names_nodup : (row.map Member.hierarchy).Nodup
  top : ∀ m ∈ row, ∃ all, ctx.beside? m = some all ∧ all.isAll = true ∧
    all.hierarchy = m.hierarchy

instance (ctx : Context) (row : Tuple) : Decidable (ctx.Overlooks row) :=
  decidable_of_iff ((row.map Member.hierarchy).Nodup ∧ ∀ m ∈ row, (ctx.beside? m).any fun all =>
      all.isAll && all.hierarchy == m.hierarchy) <| by
    constructor
    · rintro ⟨hnodup, htop⟩
      refine ⟨hnodup, fun m hm => ?_⟩
      simpa [Option.any_eq_true] using htop m hm
    · rintro ⟨hnodup, htop⟩
      refine ⟨hnodup, fun m hm => ?_⟩
      simpa [Option.any_eq_true] using htop m hm

variable {ctx : Context} {row part : Tuple} {m : Member} {i : Nat}

theorem exists_of_beside? {all : Member} (hbeside : ctx.beside? m = some all) :
    ∃ i, ctx.cube.ordinal? m.hierarchy = some i ∧ ctx.members[i]? = some all :=
  Option.bind_eq_some_iff.mp hbeside

/-- A member of a tuple stands in its place in the end if no other one has the same place. -/
theorem getElem?_override_of_mem (hnodup : (row.map Member.hierarchy).Nodup) (hm : m ∈ row)
    (hi : ctx.cube.ordinal? m.hierarchy = some i) (hlt : i < ctx.members.length) :
    (ctx.override row).members[i]? = some m := by
  induction row generalizing ctx with
  | nil => cases hm
  | cons first rest ih =>
    rw [List.map_cons, List.nodup_cons] at hnodup
    rw [override_cons]
    rcases List.mem_cons.mp hm with rfl | hrest
    · -- The places of the other members go by other names.
      have hothers : ∀ n ∈ rest, ctx.cube.ordinal? n.hierarchy ≠ some i := by
        intro n hn hni
        obtain ⟨own, hown, hname⟩ := Cube.ordinal?_spec hi
        obtain ⟨other, hother, hname'⟩ := Cube.ordinal?_spec hni
        obtain rfl : own = other := Option.some.inj (hown.symm.trans hother)
        exact hnodup.1 (List.mem_map.mpr ⟨n, hn, hname'.symm.trans hname⟩)
      have hplaced : (ctx.override [m]).members[i]? = some m := by
        simp [override, Cube.place, hi, hlt]
      exact (Cube.getElem?_foldl_place_of_forall_ne hothers).trans hplaced
    · refine ih hnodup.2 hrest hi ?_
      simpa [override] using hlt

theorem getElem?_override_of_forall_ne (hrow : ∀ m ∈ row, ctx.cube.ordinal? m.hierarchy ≠ some i) :
    (ctx.override row).members[i]? = ctx.members[i]? :=
  Cube.getElem?_foldl_place_of_forall_ne hrow

namespace Overlooks

theorem of_isInfix (hrow : ctx.Overlooks row) (hpart : part <:+: row) : ctx.Overlooks part where
  names_nodup := hrow.names_nodup.sublist (hpart.sublist.map Member.hierarchy)
  top m hm := hrow.top m (hpart.subset hm)

/-- Where a tuple is placed, its members have taken the places of all members. -/
theorem place_cases (hrow : ctx.Overlooks row) (i : Nat) :
    (∃ m ∈ row, ∃ all, (ctx.override row).members[i]? = some m ∧ ctx.members[i]? = some all ∧
        all.isAll = true ∧ all.hierarchy = m.hierarchy ∧
        ctx.cube.ordinal? m.hierarchy = some i) ∨
      (∀ m ∈ row, ctx.cube.ordinal? m.hierarchy ≠ some i) ∧
        (ctx.override row).members[i]? = ctx.members[i]? := by
  by_cases hplaced : ∃ m ∈ row, ctx.cube.ordinal? m.hierarchy = some i
  · obtain ⟨m, hm, hi⟩ := hplaced
    obtain ⟨all, hbeside, hall, hname⟩ := hrow.top m hm
    obtain ⟨j, hj, hget⟩ := exists_of_beside? hbeside
    obtain rfl : i = j := Option.some.inj (hi.symm.trans hj)
    have hlt : i < ctx.members.length := (List.getElem?_eq_some_iff.mp hget).1
    exact .inl ⟨m, hm, all, getElem?_override_of_mem hrow.names_nodup hm hi hlt, hget, hall,
      hname, hi⟩
  · have hnone : ∀ m ∈ row, ctx.cube.ordinal? m.hierarchy ≠ some i := by simpa using hplaced
    exact .inr ⟨hnone, getElem?_override_of_forall_ne hnone⟩

theorem names_override (hrow : ctx.Overlooks row) :
    (ctx.override row).members.map Member.hierarchy = ctx.members.map Member.hierarchy := by
  apply List.ext_getElem?
  intro i
  rw [List.getElem?_map, List.getElem?_map]
  rcases hrow.place_cases i with ⟨m, -, all, hm, hall, -, hname, -⟩ | ⟨-, hsame⟩
  · rw [hm, hall, Option.map_some, Option.map_some, hname]
  · rw [hsame]

/-- A part of a tuple covers all that the whole tuple covers. -/
theorem covers_part (hrow : ctx.Overlooks row) (hpart : part <:+: row) {key : List Member}
    (hkey : key.map Member.hierarchy = ctx.members.map Member.hierarchy)
    (hcovers : FactTable.covers (ctx.override row).members key = true) :
    FactTable.covers (ctx.override part).members key = true := by
  rw [FactTable.covers_iff] at hcovers ⊢
  intro i m k hm hk
  rcases (hrow.of_isInfix hpart).place_cases i with ⟨n, hn, _, hset, hget, -, -, hi⟩ | ⟨-, hsame⟩
  · -- The whole tuple has the same member in this place.
    have hlt : i < ctx.members.length := (List.getElem?_eq_some_iff.mp hget).1
    have hwhole := getElem?_override_of_mem hrow.names_nodup (hpart.subset hn) hi hlt
    exact hcovers i m k (hwhole.trans (hset.symm.trans hm)) hk
  · rw [hsame] at hm
    rcases hrow.place_cases i with ⟨n, -, all, -, hget, hall, -, -⟩ | ⟨-, hwhole⟩
    · obtain rfl : all = m := Option.some.inj (hget.symm.trans hm)
      have hname : k.hierarchy = all.hierarchy := by
        have hnames := congrArg (fun names => names[i]?) hkey
        simpa [hk, hm] using hnames
      simp [Member.isAncestorOrSelf, hall, hname]
    · exact hcovers i m k (hwhole.trans hm) hk

/-- From above, a part of a tuple fills a cell wherever the whole tuple does. -/
theorem fills_part (hrow : ctx.Overlooks row)
    (hfacts : ctx.facts.AddsUp (ctx.members.map Member.hierarchy)) (hpart : part <:+: row)
    (hfills : ctx.fills row = true) : ctx.fills part = true := by
  have hadds : ∀ {row}, ctx.Overlooks row →
      ctx.facts.AddsUp ((ctx.override row).members.map Member.hierarchy) := fun hrow => by
    rw [hrow.names_override]
    exact hfacts
  rcases (hadds hrow).valueAt_cases with ⟨⟨cell, hmem, hcell⟩, -⟩ | ⟨-, hempty⟩
  · have hbelow := hrow.covers_part hpart (hfacts.names_eq cell hmem) hcell
    rcases (hadds (hrow.of_isInfix hpart)).valueAt_cases with ⟨-, hnumber⟩ | ⟨hnone, -⟩
    · change (!(Value.ofCell (ctx.facts.valueAt (ctx.override part).members)).isNull) = true
      cases hvalue : ctx.facts.valueAt (ctx.override part).members with
      | number x => rfl
      | boolean b => rfl
      | _ => simp [hvalue, CellValue.asNumber?] at hnumber
    · rw [hnone cell hmem] at hbelow
      cases hbelow
  · change (!(Value.ofCell (ctx.facts.valueAt (ctx.override row).members)).isNull) = true at hfills
    rw [hempty] at hfills
    cases hfills

end Overlooks

end Context

end CubeCalc
