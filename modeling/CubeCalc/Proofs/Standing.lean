import CubeCalc.Proofs.Conformity
import CubeCalc.Proofs.Context
/-!
# The regime of a sound cube

In a sound cube, contexts that hold one member of each hierarchy never fail to move, and simplifying
one changes it only where the calc does not depend on it. The members of a type's hierarchy are then
the members of the hierarchy itself.
-/

namespace CubeCalc

open Outcome Context

variable {cube : Cube} {ctx : Context} {h : Hierarchy}

/-! ### Members of the cube -/

/-- Members that belong to hierarchies of the cube are members of the cube. -/
theorem Cube.holds_of_forall₂ {row : Tuple} {hs : List Hierarchy}
    (hrow : List.Forall₂ (fun m h => m ∈ Hierarchy.members h) row hs)
    (hhs : ∀ h ∈ hs, h ∈ cube.hierarchies) : cube.Holds row := by
  induction hrow with
  | nil => simp [Cube.Holds]
  | @cons m h row hs hm hrest ih =>
    rw [List.forall_mem_cons] at hhs
    exact List.forall_mem_cons.mpr ⟨⟨h, hhs.1, hm⟩, ih hhs.2⟩

theorem exists_mem_of_forall₂ {row : Tuple} {hs : List Hierarchy}
    (hrow : List.Forall₂ (fun m h => m ∈ Hierarchy.members h) row hs) (hh : h ∈ hs) :
    ∃ m ∈ row, m ∈ h.members := by
  induction hrow with
  | nil => simp at hh
  | @cons m own row hs hm hrest ih =>
    rcases List.mem_cons.mp hh with rfl | hmem
    · exact ⟨m, List.mem_cons_self, hm⟩
    · obtain ⟨n, hn, hnh⟩ := ih hmem
      exact ⟨n, List.mem_cons_of_mem _ hn, hnh⟩

/-! ### Simplifying -/

/-- A context is simplified only in the hierarchies that a calc does not depend on. -/
theorem meets_simplify (hcube : cube.IsSound) (c : Calc) (hctx : ctx.Stands cube) :
    Meets (fun simplified? : Option Context =>
        (simplified?.getD ctx).Stands cube ∧
          AgreesOn (fun h => c.dependsOn h = true) ctx (simplified?.getD ctx) ∧
          (ctx.nonEmpty = true → simplified?.getD ctx = ctx))
      (fun _ => False) (c.simplify? ctx) := by
  rw [Calc.simplify?]
  split
  · exact ⟨hctx, .refl _ _, fun _ => rfl⟩
  · next hempty =>
    refine meets_foldlM ⟨hctx, .refl _ _, fun _ => rfl⟩ fun simplified? own hown hsimplified => ?_
    obtain ⟨hstands, hagree, -⟩ := hsimplified
    have hmem : own ∈ cube.hierarchies := hctx.cube_eq ▸ hown
    obtain ⟨_, m, _, _, _, hmember⟩ := hctx.member_eq hcube hmem
    simp only [Calc.resets, hmember, Outcome.ok_bind, pure_bind]
    split
    · next hreset =>
      obtain ⟨i, hi, hmove⟩ := move_eq hcube hstands hmem (hcube.closed own hmem).default_mem
      have hfree : c.dependsOn own = false := by
        simp only [Bool.and_eq_true, Bool.not_eq_true'] at hreset
        exact hreset.1.2
      rw [hmove]
      refine ⟨hstands.set hi (hcube.closed own hmem).default_mem, hagree.trans ?_, fun h => ?_⟩
      · refine (agreesOn_set hstands hi).mono fun other _ hdepends => ?_
        rintro rfl
        simp [hfree] at hdepends
      · exact absurd h hempty
    · exact ⟨hstands, hagree, fun h => absurd h hempty⟩

/-- The context for a calc agrees with the caller's on all that the calc depends on. -/
theorem contextFor_eq (hcube : cube.IsSound) (c : Calc) (simplify : Bool) (hctx : ctx.Stands cube) :
    ∃ simplified, c.contextFor simplify ctx = .ok simplified ∧ simplified.Stands cube ∧
      AgreesOn (fun h => c.dependsOn h = true) ctx simplified ∧
      (ctx.nonEmpty = true → simplified = ctx) := by
  rw [Calc.contextFor]
  cases simplify with
  | false => exact ⟨ctx, rfl, hctx, .refl _ _, fun _ => rfl⟩
  | true =>
    obtain ⟨simplified?, hsimplify, hsimplified⟩ := (meets_simplify hcube c hctx).exists_ok
    rw [if_pos rfl, hsimplify]
    exact ⟨_, rfl, hsimplified⟩

/-! ### Keeping within the cube -/

namespace Context.Stands

variable {Q : Failure → Prop}

theorem meets_moveAll (hcube : cube.IsSound) (hctx : ctx.Stands cube) {row : Tuple}
    (hrow : cube.Holds row) : Meets (·.Stands cube) Q (ctx.moveAll row) := by
  obtain ⟨moved, -, hmoved, -, hstands, -, -⟩ :=
    moveAll_agreesOn hcube (.refl (fun _ => True) _) hctx hctx hrow
  rw [hmoved]
  exact hstands

theorem meets_contextFor (hcube : cube.IsSound) (hctx : ctx.Stands cube) (c : Calc)
    (simplify : Bool) : Meets (·.Stands cube) Q (c.contextFor simplify ctx) := by
  obtain ⟨simplified, heq, hstands, -, -⟩ := contextFor_eq hcube c simplify hctx
  rw [heq]
  exact hstands

theorem meets_member (hcube : cube.IsSound) (hctx : ctx.Stands cube) (hh : h ∈ cube.hierarchies) :
    Meets (· ∈ h.members) Q (ctx.member h) := by
  obtain ⟨_, m, _, _, hm, hmember⟩ := hctx.member_eq hcube hh
  rw [hmember]
  exact hm

theorem child_mem (hcube : cube.IsSound) (hctx : ctx.Stands cube) (hh : h ∈ cube.hierarchies)
    {m child : Member} (hm : m ∈ h.members) (hchild : child ∈ ctx.childrenOf m) :
    child ∈ h.members := by
  rw [Context.childrenOf, hctx.cube_eq, hcube.hierarchyOf?_eq hh hm] at hchild
  exact List.mem_of_mem_filter hchild

end Context.Stands

/-! ### The regime -/

/-- How an evaluation may fail in a sound cube. -/
inductive Failure.IsExpected (limit : RowLimit) : Failure → Prop where
  | exceeded {attempted most : Nat} (hmost : limit.rows? = some most) (hlt : most < attempted) :
    IsExpected limit (.error (.limitExceeded attempted most))
  | notNumber {kind : ValueKind} (hkind : kind = .boolean ∨ kind = .string) :
    IsExpected limit (.error (.kindMismatch .numeric kind))
  | notBoolean : IsExpected limit (.error (.kindMismatch .boolean .string))
  | noSlots : IsExpected limit (.violation .capacityOverflow)
  | emptyTuple : IsExpected limit (.error (.arityMismatch 1 0))

/-- Contexts that stand in the cube, and members of the hierarchies themselves. -/
def Regime.sound (hcube : cube.IsSound) (limit : RowLimit) : Regime cube limit where
  stands ctx := ctx.Stands cube
  belongs m h := m ∈ h.members
  allows := Failure.IsExpected limit
  own _ hm := hm
  parent hh hm hparent := (hcube.closed _ hh).parent_mem _ hm _ hparent
  child hctx hh hm hchild := hctx.child_mem hcube hh hm hchild
  current hctx hh := hctx.meets_member hcube hh
  moveAll hctx hhs hrow := hctx.meets_moveAll hcube (Cube.holds_of_forall₂ hrow hhs)
  contextFor c simplify hctx := hctx.meets_contextFor hcube c simplify
  exceeded hmost hlt := .exceeded hmost hlt
  notNumber := .notNumber
  notBoolean := .notBoolean

variable {config : CalcConfig} {c : Calc}

theorem Regime.suits_sound (hcube : cube.IsSound) (huniform : c.everySet Calc.uniform = true) :
    (Regime.sound hcube config.limit).Suits c :=
  ⟨.inl ⟨hcube, huniform⟩, .inr .noSlots, .inr .emptyTuple⟩

/-! ### Any compiled calc -/

/-- How the evaluation of a calc may fail in a sound cube. It takes a set literal of more slots than
an address space has, or one with an element without members, to fail as those do. -/
structure Failure.IsPossible (c : Calc) (limit : RowLimit) (failure : Failure) : Prop where
  expected : failure.IsExpected limit
  unreserved : failure = .violation .capacityOverflow → c.everySet Calc.reservable = false
  memberless : failure = .error (.arityMismatch 1 0) → c.everySet Calc.hasMembers = false

theorem Cube.holds_of_forall₂_mem {row : Tuple} {hs : List Hierarchy}
    (hrow : List.Forall₂ (fun m _ => ∃ own ∈ cube.hierarchies, m ∈ own.members) row hs) :
    cube.Holds row := by
  induction hrow with
  | nil => simp [Cube.Holds]
  | cons hm hrest ih => exact List.forall_mem_cons.mpr ⟨hm, ih⟩

/-- Contexts that stand in the cube, and members of any of its hierarchies. Set literals of elements
of several types are fine there. -/
def Regime.within (hcube : cube.IsSound) (limit : RowLimit) (c : Calc) : Regime cube limit where
  stands ctx := ctx.Stands cube
  belongs m _ := ∃ own ∈ cube.hierarchies, m ∈ own.members
  allows := Failure.IsPossible c limit
  own hh hm := ⟨_, hh, hm⟩
  parent _ := fun ⟨own, hown, hm⟩ hparent =>
    ⟨own, hown, (hcube.closed own hown).parent_mem _ hm _ hparent⟩
  child hctx _ := fun ⟨own, hown, hm⟩ hchild => ⟨own, hown, hctx.child_mem hcube hown hm hchild⟩
  current hctx hh := (hctx.meets_member hcube hh).mono (fun _ hm => ⟨_, hh, hm⟩) fun _ h => h
  moveAll hctx _ hrow := hctx.meets_moveAll hcube (Cube.holds_of_forall₂_mem hrow)
  contextFor own simplify hctx := hctx.meets_contextFor hcube own simplify
  exceeded hmost hlt := ⟨.exceeded hmost hlt, by simp, by simp⟩
  notNumber hkind := ⟨.notNumber hkind, by simp, by simp⟩
  notBoolean := ⟨.notBoolean, by simp, by simp⟩

theorem Regime.suits_within (hcube : cube.IsSound) :
    (Regime.within hcube config.limit c).Suits c where
  uniform := .inr fun _ _ _ h => h
  reservable := by
    cases hslots : c.everySet Calc.reservable with
    | true => exact .inl rfl
    | false => exact .inr ⟨.noSlots, fun _ => hslots, by simp⟩
  hasMembers := by
    cases hmembers : c.everySet Calc.hasMembers with
    | true => exact .inl rfl
    | false => exact .inr ⟨.emptyTuple, by simp, fun _ => hmembers⟩

/-- A compiled calc yields a value of its type in every context of a sound cube, or it fails in one
of a few ways. -/
theorem Calc.Formed.meets_possible (hcube : cube.IsSound) (hc : c.Formed cube config)
    (hctx : ctx.Stands cube) :
    Meets ((Regime.within hcube config.limit c).Yields c) (Failure.IsPossible c config.limit)
      (c.evaluate ctx) :=
  Regime.meets_evaluate hc (Regime.suits_within hcube) hctx

end CubeCalc
