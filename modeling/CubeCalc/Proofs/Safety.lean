import CubeCalc.Proofs.LazyList
import CubeCalc.Proofs.PlanSize
import CubeCalc.Proofs.TypeSoundness
/-!
# Safety

No contract is broken between an expression and its value. Compiling it comes to a calc or to an
error, whatever is asked for, and every part of the calc has a type and a style that its variant can
have. Evaluating it comes to a value or to an error, wherever a context is taken within the cube,
and what is to be walked can be walked there.
-/

namespace CubeCalc

open Outcome

variable {cube : Cube} {config : CalcConfig} {c : Calc} {ctx : Context} {v : Value}

/-! ### Declarations -/

namespace Calc

/-- Whether a calc and all its parts fit the variants that they are declared with. -/
def allFit : Calc → Bool := foldTree fun c below => c.fits && below.all id

theorem allFit_eq (c : Calc) : c.allFit = (c.fits && c.children.all allFit) := by
  rw [allFit, foldTree_eq, List.all_map]
  rfl

theorem Formed.fits_eq (hc : Formed cube config c) : c.fits = true := by
  cases hc with
  | hierarchyMembers | levelMembers | memberChildren | crossJoin => rfl
  | setLiteral hfirst => exact fits_list rfl (by rw [type_setLiteral hfirst]; rfl) rfl
  | filter _ hset | order _ hset | copiedList _ hset => exact fits_list rfl hset rfl
  | packedList _ hset hstyle => exact fits_list rfl hset hstyle
  | memberParent _ hmember => exact fits_member rfl hmember rfl
  | _ => rfl

theorem Formed.allFit_eq_true (hc : Formed cube config c) : c.allFit = true := by
  induction c using children_induction with
  | step c ih =>
    rw [allFit_eq, hc.fits_eq, Bool.true_and, List.all_eq_true]
    exact fun child hchild => ih child hchild (hc.of_mem_children hchild)

end Calc

/-! ### Contexts -/

/-- What is done to an evaluator before something is evaluated in it. A pushed evaluator starts out
as a copy. -/
inductive ContextStep where
  | push
  | setNonEmpty (nonEmpty : Bool)
  | setContext (m : Member)

namespace ContextStep

def run (ctx : Context) : ContextStep → Outcome Context
  | .push => .ok ctx
  | .setNonEmpty nonEmpty => .ok (ctx.setNonEmpty nonEmpty)
  | .setContext m => ctx.move m

def IsWithin (cube : Cube) : ContextStep → Prop
  | .push | .setNonEmpty _ => True
  | .setContext m => cube.Holds [m]

theorem meets_run (hcube : cube.IsSound) (hctx : ctx.Stands cube) {step : ContextStep}
    (hstep : step.IsWithin cube) : Meets (·.Stands cube) (fun _ => False) (step.run ctx) := by
  cases step with
  | push => exact hctx
  | setNonEmpty nonEmpty => exact ⟨hctx.cube_eq, hctx.members_mem⟩
  | setContext m =>
    obtain ⟨h, hh, hm⟩ := hstep m List.mem_cons_self
    obtain ⟨i, hi, hmove⟩ := Context.move_eq hcube hctx hh hm
    rw [run, hmove]
    exact hctx.set hi hm

/-- Steps within a cube are never refused, and they lead from its root to where it stands. -/
theorem exists_runs (hcube : cube.IsSound) (facts : FactTable Double) {steps : List ContextStep}
    (hsteps : ∀ step ∈ steps, step.IsWithin cube) :
    ∃ ctx, steps.foldlM run (.root cube facts) = .ok ctx ∧ ctx.Stands cube := by
  apply Meets.exists_ok
  refine meets_foldlM (.root hcube facts) fun ctx step hstep hctx => ?_
  exact meets_run hcube hctx (hsteps step hstep)

end ContextStep

/-! ### Walks -/

theorem Cursor.setContext_eq {κ : Type} [Cursor κ] {cursor : κ} {row : Tuple} {moved : Context}
    (hrow : columns cursor = .ok row) (hmove : ctx.moveAll row = .ok moved) :
    setContext cursor ctx = (moved, .ok ()) := by
  rw [columns] at hrow
  rw [setContext]
  -- The columns are read from the first on, whatever their number.
  generalize List.range (arity cursor) = positions at hrow
  induction positions generalizing row ctx with
  | nil =>
    obtain rfl : [] = row := Except.ok.inj hrow
    obtain rfl : ctx = moved := Except.ok.inj hmove
    rfl
  | cons column rest ih =>
    rw [List.mapM_cons] at hrow
    obtain ⟨m, hm, hrow⟩ := bind_eq_ok_iff.mp hrow
    obtain ⟨others, hothers, hrow⟩ := bind_eq_ok_iff.mp hrow
    obtain rfl : m :: others = row := Except.ok.inj hrow
    rw [Context.moveAll, List.foldlM_cons] at hmove
    obtain ⟨here, hhere, hmove⟩ := bind_eq_ok_iff.mp hmove
    have hstep : (member cursor column).bind ctx.move = .ok here := by
      rw [hm]
      exact hhere
    rw [setContext.go, hstep]
    exact ih hmove hothers

namespace TupleSource

/-- The members that are held can be counted in a word, as all members in memory can. -/
def FitsWord : TupleSource → Prop
  | .list l => l.rows.length * l.arity < wordBound
  | .product left right =>
    left.rows.length * left.arity < wordBound ∧ right.rows.length * right.arity < wordBound
  | .rows _ _ => True

/-- A cursor finds each row, and moves any context of the cube there. -/
structure IsWalkable (cube : Cube) (source : TupleSource) : Prop where
  offers : Cursor.Offers source.cursor source.tuples
  enters : ∀ i < source.tuples.length, ∀ ctx : Context, ctx.Stands cube →
    ∃ moved, Cursor.setContext (Cursor.forwardBy source.cursor (i + 1)) ctx = (moved, .ok ()) ∧
      moved.Stands cube

end TupleSource

namespace Regime

variable {r : Regime cube config.limit} {hs : List Hierarchy} {source : TupleSource}

theorem Lists.represents {l : TupleList} (hl : r.Lists hs l) :
    l.Represents ⟨l.arity, l.rows, l.isMutable, l.limit⟩ :=
  ⟨hl.holds, rfl, rfl, rfl⟩

theorem Sources.presents (hsource : r.Sources hs source) (hword : source.FitsWord) :
    source.Presents source.tuples := by
  cases source with
  | list l => exact .list (Lists.represents hsource) hword
  | product left right =>
    obtain ⟨_, _, -, hleft, hright, -⟩ := hsource
    have hpresents : (TupleSource.product left right).Presents (pairRows left.rows right.rows) :=
      .product hleft.represents hword.1 hright.represents hword.2
    exact hpresents.tuples_eq.symm ▸ hpresents
  | rows arity tuples => exact hsource.elim

theorem Sources.isWalkable (hcube : cube.IsSound)
    (hsource : (Regime.within hcube config.limit c).Sources hs source) (hword : source.FitsWord) :
    source.IsWalkable cube where
  offers := (hsource.presents hword).offers
  enters i hi ctx hctx := by
    have hbelong := hsource.rows_belong _ (List.getElem_mem hi)
    obtain ⟨moved, hmoves, hmoved⟩ :=
      (hctx.meets_moveAll hcube (Cube.holds_of_forall₂_mem hbelong)).exists_ok
    have hcolumns := (hsource.presents hword).offers.columns_eq i hi
    exact ⟨moved, Cursor.setContext_eq hcolumns hmoves, hmoved⟩

end Regime

def Value.IsWalkable (cube : Cube) (v : Value) : Prop :=
  ∀ source, v.toSource = .ok source → source.FitsWord → source.IsWalkable cube

/-! ### Evaluating -/

theorem CalcVariant.meets_narrow (variant : CalcVariant) (v : Value) :
    Meets (fun _ => True) Failure.IsError (variant.narrow v) := by
  cases variant <;> cases v <;> first | trivial | exact Failure.isError_error _

theorem Failure.IsPossible.isError {failure : Failure} {limit : RowLimit}
    (hfailure : failure.IsPossible c limit) (hslots : c.everySet Calc.reservable = true) :
    failure.IsError := by
  cases hfailure.expected with
  | noSlots => exact absurd hslots (Bool.eq_false_iff.mp (hfailure.unreserved rfl))
  | _ => exact Failure.isError_error _

theorem Calc.Formed.meets_isWalkable (hcube : cube.IsSound) (hc : c.Formed cube config)
    (hsize : c.plan.size < Packed.slotBound) (hctx : ctx.Stands cube) :
    Meets (Value.IsWalkable cube) Failure.IsError (c.evaluate ctx) := by
  refine (hc.meets_possible hcube hctx).mono (fun v hv source hsource hword => ?_)
    fun _ h => h.isError (hc.reservable hsize)
  have hrows := (hv.toSource (hv.isSet_of_toSource hsource)).of_ok hsource
  exact hrows.isWalkable hcube hword

/-! ### All requests -/

namespace Compiler

/-- The calcs that a compiler can be made to hand out for an expression, and the parts of these. -/
inductive Obtains (compiler : Compiler) (exp : Exp) : Calc → Prop where
  | answered {request : Request} {c : Calc} (hc : compiler.answer exp request = .ok c) :
    Obtains compiler exp c
  | adapted {c own : Calc} {styles : List ResultStyle} (hc : Obtains compiler exp c)
    (hown : c.adapt styles compiler.limit = .ok own) : Obtains compiler exp own
  | part {c child : Calc} (hc : Obtains compiler exp c) (hchild : child ∈ c.children) :
    Obtains compiler exp child

variable {compiler : Compiler} {exp : Exp}

theorem Obtains.makes (hc : compiler.Obtains exp c) : compiler.Makes c := by
  induction hc with
  | answered hc => exact (compiler.meets_answer exp _).of_ok hc
  | adapted _ hown ih => exact ((Calc.meets_adapt ih _).of_ok hown).1
  | part _ hchild ih => exact ih.of_mem_children hchild

/-- No request and no adaptation trips over a contract, and neither does an evaluation, as long as
the calc is held in memory, so that its plan has fewer entries than an address space has slots.
Steps within the cube are never refused, and wherever they lead to, the calc comes to a value or to
an error there, also if a narrower kind of value is asked for, and to sets that can be walked. -/
theorem never_violates (compiler : Compiler) (hcube : compiler.cube.IsSound) (exp : Exp) :
    (∀ request, Meets (compiler.Obtains exp) Failure.IsError (compiler.answer exp request)) ∧
    ∀ c, compiler.Obtains exp c →
      c.allFit = true ∧
      (∀ styles, Meets (compiler.Obtains exp) Failure.IsError (c.adapt styles compiler.limit)) ∧
      (c.plan.size < Packed.slotBound →
        ∀ (facts : FactTable Double) (steps : List ContextStep),
          (∀ step ∈ steps, step.IsWithin compiler.cube) →
          ∃ ctx, steps.foldlM ContextStep.run (.root compiler.cube facts) = .ok ctx ∧
            Meets (Value.IsWalkable compiler.cube) Failure.IsError (c.evaluate ctx) ∧
            ∀ variant : CalcVariant,
              Meets (fun _ => True) Failure.IsError (c.evaluate ctx >>= variant.narrow)) := by
  refine ⟨fun request => ?_, fun c hobtained => ⟨?_, fun styles => ?_, ?_⟩⟩
  · exact (compiler.meets_answer exp request).eq_ok.mono (fun _ hc => .answered hc) fun _ h => h
  · exact hobtained.makes.allFit_eq_true
  · exact (Calc.meets_adapt hobtained.makes styles).eq_ok.mono
      (fun _ hown => .adapted hobtained hown) fun _ h => h
  · intro hsize facts steps hsteps
    -- Wherever the steps lead to, the context stands in the cube, and no more is asked for.
    obtain ⟨ctx, hruns, hctx⟩ := ContextStep.exists_runs hcube facts hsteps
    have hvalue := hobtained.makes.meets_isWalkable hcube hsize hctx
    exact ⟨ctx, hruns, hvalue, fun variant => hvalue.bind fun v _ => variant.meets_narrow v⟩

end Compiler

namespace Sales

def osloSteps : List ContextStep := [.setContext oslo, .push, .setNonEmpty true]

theorem yearlyTowns_safe :
    ∃ ctx, osloSteps.foldlM ContextStep.run (.root .sales (.empty 2)) = .ok ctx ∧
      Meets (Value.IsWalkable .sales) Failure.IsError (yearlyTownsCalc.evaluate ctx) := by
  have hanswer : (Compiler.mk .sales {}).answer yearlyTowns .natural = .ok yearlyTownsCalc := rfl
  have hoslo : Cube.sales.Holds [oslo] := fun m hm => by
    obtain rfl := List.mem_singleton.mp hm
    exact ⟨town, List.mem_cons_of_mem _ List.mem_cons_self, List.get_mem _ _⟩
  have hsteps : ∀ step ∈ osloSteps, step.IsWithin .sales := fun step hstep => by
    cases step with
    | push | setNonEmpty => trivial
    | setContext m =>
      obtain rfl : m = oslo := by simpa [osloSteps] using hstep
      exact hoslo
  obtain ⟨-, -, hevaluate⟩ :=
    (Compiler.never_violates ⟨.sales, {}⟩ Cube.sales_isSound yearlyTowns).2 _ (.answered hanswer)
  obtain ⟨ctx, hruns, hvalue, -⟩ := hevaluate (by decide) (.empty 2) osloSteps hsteps
  exact ⟨ctx, hruns, hvalue⟩

end Sales

end CubeCalc
