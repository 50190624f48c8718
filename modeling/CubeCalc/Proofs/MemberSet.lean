import CubeCalc.Proofs.CrossJoin
import CubeCalc.Proofs.RowBound
/-!
# Sets of members

The members of a hierarchy, of a level, below a member, and those of a literal come to the same list
whether empty cells are kept or not, because no cell is read on the way. A join can take them over
as they are.
-/

namespace CubeCalc

open Outcome

/-- Members go by the names of the hierarchies that they are listed in. -/
def Cube.IsNamed (cube : Cube) : Prop :=
  ∀ h ∈ cube.hierarchies, ∀ m ∈ h.members, m.hierarchy = h.name

/-- The context has one place for each hierarchy of a cube. -/
structure Context.HasPlaces (cube : Cube) (ctx : Context) : Prop where
  cube_eq : ctx.cube = cube
  length_eq : ctx.members.length = cube.hierarchies.length

variable {cube : Cube} {config : CalcConfig} {ctx : Context} {h : Hierarchy} {m : Member} {c : Calc}

namespace Context.HasPlaces

theorem exists_place (hctx : ctx.HasPlaces cube) (hh : h ∈ cube.hierarchies) :
    ∃ i, ctx.cube.ordinal? h.name = some i ∧ i < ctx.members.length := by
  have hsome : (cube.ordinal? h.name).isSome := Cube.ordinal?_go_isSome 0 ⟨h, hh, rfl⟩
  obtain ⟨i, hi⟩ := Option.isSome_iff_exists.mp hsome
  obtain ⟨own, hown, -⟩ := Cube.ordinal?_spec hi
  refine ⟨i, by rw [hctx.cube_eq, hi], ?_⟩
  rw [hctx.length_eq]
  exact (List.getElem?_eq_some_iff.mp hown).1

theorem reaches (hcube : cube.IsNamed) (hctx : ctx.HasPlaces cube) (hh : h ∈ cube.hierarchies)
    (hm : m ∈ h.members) : ctx.Reaches m := by
  unfold Context.Reaches
  rw [hcube h hh m hm]
  exact hctx.exists_place hh

theorem exists_member (hctx : ctx.HasPlaces cube) (hh : h ∈ cube.hierarchies) :
    ∃ m, ctx.member h = .ok m := by
  obtain ⟨i, hi, hlt⟩ := hctx.exists_place hh
  exact ⟨ctx.members[i], by simp [Context.member, hi, hlt]⟩

end Context.HasPlaces

/-! ### Members -/

theorem StaticType.not_isMember {type : StaticType}
    (htype : type.isSet = true ∨ type.isScalar = true) : ¬type.isMember = true := by
  cases type <;> simp_all [isSet, isScalar, isMember]

/-- A calc of a member's type has a member or nothing for a value, whether empty cells are kept or
not. -/
theorem Calc.Formed.exists_member (hc : c.Formed cube config) (htype : c.type.isMember = true)
    (hctx : ctx.HasPlaces cube) : ∃ m? : Option Member, ∀ nonEmpty,
      c.evaluate (ctx.setNonEmpty nonEmpty) = .ok (m?.elim .null .member) := by
  induction hc with
  | constant value => cases value <;> cases htype
  | currentMember hh =>
    obtain ⟨m, hm⟩ := hctx.exists_member hh
    have hset : ∀ nonEmpty, (ctx.setNonEmpty nonEmpty).member _ = .ok m := fun _ => hm
    refine ⟨some m, ?_⟩
    intro nonEmpty
    rw [evaluate, hset]
    rfl
  | @memberLiteral _ m =>
    refine ⟨some m, ?_⟩
    intro nonEmpty
    rw [evaluate]
    rfl
  | memberParent _ hown ih =>
    obtain ⟨m?, hm⟩ := ih hown
    refine ⟨m?.bind Member.parent?, ?_⟩
    intro nonEmpty
    rw [evaluate, hm]
    cases m? <;> rfl
  | setLiteral hfirst =>
    rw [type_setLiteral hfirst] at htype
    cases htype
  | filter _ hset | order _ hset | packedList _ hset | copiedList _ hset =>
    exact absurd htype (StaticType.not_isMember (.inl hset))
  | iif _ _ _ hthen =>
    exact absurd htype (StaticType.not_isMember (.inr hthen))
  | _ => cases htype

/-! ### Sets -/

/-- A set of the members of a hierarchy, of a level or below a member, or of members by name. -/
inductive Exp.IsMemberSet : Exp → Prop where
  | members (hierarchy : String) : IsMemberSet (.members hierarchy)
  | levelMembers (hierarchy : String) (depth : Nat) : IsMemberSet (.levelMembers hierarchy depth)
  | children (member : Exp) : IsMemberSet (.children member)
  | literal (names : List String) : IsMemberSet (.set (names.map .member))

namespace Calc

/-- The calc comes to a list of some members, whether empty cells are kept or not. -/
def Lists (c : Calc) (ctx : Context) (members : List Member) : Prop :=
  ∀ nonEmpty, ∃ isMutable, c.evaluate (ctx.setNonEmpty nonEmpty) =
    .ok (.list ⟨.unary members.toArray, isMutable, .unbounded⟩)

theorem Formed.exists_lists_memberChildren {member : Calc} (hmember : member.Formed cube config)
    (htype : member.type.isMember = true) (hctx : ctx.HasPlaces cube) :
    ∃ members, Lists (.memberChildren member .unbounded) ctx members ∧
      ∀ m ∈ members, ∃ h ∈ cube.hierarchies, m ∈ h.members := by
  obtain ⟨m?, hm⟩ := hmember.exists_member htype hctx
  cases m? with
  | none =>
    refine ⟨[], fun nonEmpty => ⟨true, ?_⟩, by simp⟩
    rw [evaluate, hm]
    rfl
  | some parent =>
    refine ⟨ctx.childrenOf parent, ?_, ?_⟩
    · intro nonEmpty
      refine ⟨true, ?_⟩
      rw [evaluate, hm]
      rfl
    · intro m hm
      rw [Context.childrenOf, hctx.cube_eq] at hm
      cases hown : cube.hierarchyOf? parent with
      | none => simp [hown] at hm
      | some own =>
        obtain ⟨i, -, hi⟩ := Option.bind_eq_some_iff.mp hown
        simp only [hown, Option.map_some, Option.getD_some] at hm
        exact ⟨own, List.mem_of_getElem? hi, List.mem_of_mem_filter hm⟩

/-- The elements of a literal of members are appended one by one. -/
theorem evaluateElements_memberLiterals (ctx : Context) (elements : List (Hierarchy × Member))
    (before : Array Member) :
    evaluateElements ctx ⟨.unary before, true, .unbounded⟩
        (elements.map fun element => .memberLiteral element.1 element.2) =
      .ok ⟨.unary (before ++ (elements.map Prod.snd).toArray), true, .unbounded⟩ := by
  induction elements generalizing before with
  | nil => simp [evaluateElements]
  | cons element rest ih =>
    have hpush : TupleList.push ⟨.unary before, true, .unbounded⟩ [element.2] =
        .ok ⟨.unary (before.push element.2), true, .unbounded⟩ := rfl
    rw [List.map_cons, evaluateElements, evaluate]
    simp only [Value.toTuple, Outcome.ok_bind, hpush, ih]
    simp

theorem lists_setLiteral {elements : List (Hierarchy × Member)} (hne : elements ≠ [])
    (hslots : reservable (elements.map fun element => .memberLiteral element.1 element.2) = true)
    (ctx : Context) :
    Lists (.setLiteral (elements.map fun element => .memberLiteral element.1 element.2) .unbounded)
      ctx (elements.map Prod.snd) := by
  intro nonEmpty
  refine ⟨true, ?_⟩
  cases elements with
  | nil => exact absurd rfl hne
  | cons first rest =>
    have hroom : (first :: rest).length < Packed.slotBound := by
      simpa [reservable, type, foldTree, StaticType.arity] using hslots
    have hempty : TupleList.withCapacity 1 (first :: rest).length .unbounded =
        .ok ⟨.unary #[], true, .unbounded⟩ := by
      unfold TupleList.withCapacity Storage.withCapacity
      rw [RowLimit.clamp, RowLimit.unbounded]
      simp only [hroom, if_true]
      rfl
    have helements := evaluateElements_memberLiterals (ctx.setNonEmpty nonEmpty) (first :: rest) #[]
    rw [evaluate, List.length_map]
    change (TupleList.withCapacity 1 _ _ >>= fun empty =>
      evaluateElements _ empty _ >>= fun l => pure (Value.list l)) = _
    rw [hempty, Outcome.ok_bind, helements, Outcome.ok_bind, Array.empty_append]
    rfl

end Calc

/-! ### Compiled sets -/

namespace Compiler

variable {compiler : Compiler} {exp : Exp}

theorem compileAll_members {names : List String} {calcs : List Calc}
    (hcalcs : compiler.compileAll Calc.asElement (names.map .member) = .ok calcs) :
    ∃ elements : List (Hierarchy × Member),
      calcs = elements.map (fun element => .memberLiteral element.1 element.2) ∧
      ∀ element ∈ elements, element.1 ∈ compiler.cube.hierarchies ∧
        element.2 ∈ element.1.members := by
  induction names generalizing calcs with
  | nil =>
    rw [List.map_nil, compileAll] at hcalcs
    exact ⟨[], (Except.ok.inj hcalcs).symm, by simp⟩
  | cons name rest ih =>
    rw [List.map_cons, compileAll, compile] at hcalcs
    obtain ⟨c, hc, hdemand⟩ := bind_eq_ok_iff.mp hcalcs
    obtain ⟨found, hfound, hfirst⟩ := bind_eq_ok_iff.mp hc
    obtain rfl : Calc.memberLiteral found.1 found.2 = c := Except.ok.inj hfirst
    obtain ⟨own, hown, hall⟩ := bind_eq_ok_iff.mp hdemand
    obtain rfl : Calc.memberLiteral found.1 found.2 = own := Except.ok.inj hown
    obtain ⟨others, hothers, hresult⟩ := bind_eq_ok_iff.mp hall
    obtain ⟨elements, rfl, hmem⟩ := ih hothers
    have hfirst := (meets_resolveMember compiler name).of_ok hfound
    exact ⟨found :: elements, (Except.ok.inj hresult).symm, List.forall_mem_cons.mpr ⟨hfirst, hmem⟩⟩

theorem compile_literal {names : List String}
    (hcompile : compiler.compile (.set (names.map .member)) = .ok c) :
    ∃ elements : List (Hierarchy × Member), elements ≠ [] ∧
      c = .setLiteral (elements.map fun element => .memberLiteral element.1 element.2)
        compiler.limit ∧
      ∀ element ∈ elements, element.1 ∈ compiler.cube.hierarchies ∧
        element.2 ∈ element.1.members := by
  rw [compile] at hcompile
  obtain ⟨calcs, hcalcs, hmake⟩ := bind_eq_ok_iff.mp hcompile
  obtain ⟨elements, rfl, hmem⟩ := compileAll_members hcalcs
  cases elements with
  | nil => cases hmake
  | cons first rest =>
    rw [List.map_cons, Calc.makeSetLiteral] at hmake
    split at hmake
    · cases hmake
    · exact ⟨first :: rest, List.cons_ne_nil first rest, (Except.ok.inj hmake).symm, hmem⟩

/-- A compiled set of members is joined as it is, and comes to a list of members of the cube. -/
theorem exists_lists (hexp : exp.IsMemberSet) (hlimit : compiler.limit = .unbounded)
    (hctx : ctx.HasPlaces compiler.cube) (hcompile : compiler.compile exp = .ok c)
    (hslots : c.everySet Calc.reservable = true) :
    c.asList false .unbounded = .ok c ∧ ∃ members, c.Lists ctx members ∧
      ∀ m ∈ members, ∃ h ∈ compiler.cube.hierarchies, m ∈ h.members := by
  cases hexp with
  | members name =>
    rw [compile, hlimit] at hcompile
    obtain ⟨h, hh, hc⟩ := bind_eq_ok_iff.mp hcompile
    obtain rfl := Except.ok.inj hc
    refine ⟨rfl, h.members, fun nonEmpty => ⟨false, ?_⟩, fun m hm => ⟨h, ?_, hm⟩⟩
    · rw [Calc.evaluate]
      rfl
    · exact (meets_resolveHierarchy compiler name).of_ok hh
  | levelMembers name depth =>
    rw [compile, hlimit] at hcompile
    obtain ⟨h, hh, hlevel⟩ := bind_eq_ok_iff.mp hcompile
    have hmem := (meets_resolveHierarchy compiler name).of_ok hh
    split at hlevel
    · cases hlevel
    · obtain rfl := Except.ok.inj hlevel
      refine ⟨rfl, h.membersAtDepth depth, fun nonEmpty => ⟨false, ?_⟩, fun m hm => ⟨h, hmem, ?_⟩⟩
      · rw [Calc.evaluate]
        rfl
      · exact List.mem_of_mem_filter hm
  | children member =>
    rw [compile, hlimit] at hcompile
    obtain ⟨own, hown, hchildren⟩ := bind_eq_ok_iff.mp hcompile
    obtain ⟨parent, hparent, hc⟩ := bind_eq_ok_iff.mp hchildren
    obtain rfl := Except.ok.inj hc
    have hmakes := (compiler.meets_compile member).of_ok hown
    obtain ⟨hformed, htype⟩ := (Calc.meets_asMember hmakes).of_ok hparent
    exact ⟨rfl, hformed.exists_lists_memberChildren htype hctx⟩
  | literal names =>
    obtain ⟨elements, hne, rfl, hmem⟩ := compile_literal hcompile
    rw [hlimit] at hslots ⊢
    refine ⟨?_, _, Calc.lists_setLiteral hne (Calc.everySet_own hslots) ctx, ?_⟩
    · cases elements with
      | nil => exact absurd rfl hne
      | cons first rest => rfl
    · intro m hm
      obtain ⟨element, helement, rfl⟩ := List.mem_map.mp hm
      exact ⟨element.1, hmem element helement⟩

end Compiler

end CubeCalc
