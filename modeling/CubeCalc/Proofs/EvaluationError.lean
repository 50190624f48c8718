import CubeCalc.Proofs.Request
import CubeCalc.Proofs.Standing
/-!
# Errors of an evaluation

Types, arities, styles and names are looked after when an expression is compiled. What is left for
its evaluation to find out is that a set has too many rows, or that a cell has a value of the wrong
kind. One shape gets past the compiler: a tuple without members counts as one of a single member
among the elements of a set literal, and is refused by the list that it is to be put in.
-/

namespace CubeCalc

open Outcome Calc

variable {compiler : Compiler} {exp : Exp} {request : Compiler.Request} {c : Calc} {ctx : Context}

/-- Evaluation fails with an error only if the limit is exceeded, or if an operand comes to a truth
value or a text where a number is wanted, or to a text where a truth value is. Set literals with an
element without members apart, it never finds fault with the shape of anything. -/
theorem Compiler.error_cases_of_evaluate (hcompile : compiler.answer exp request = .ok c)
    (hcube : compiler.cube.IsSound) (hctx : ctx.Stands compiler.cube) {cause : CalcError}
    (hfail : c.evaluate ctx = fail cause) :
    (∃ attempted most, cause = .limitExceeded attempted most ∧
      compiler.limit.rows? = some most ∧ most < attempted) ∨
    ((∃ kind, cause = .kindMismatch .numeric kind ∧ (kind = .boolean ∨ kind = .string)) ∨
      cause = .kindMismatch .boolean .string) ∨
    cause = .arityMismatch 1 0 ∧ c.everySet hasMembers = false := by
  have hc : compiler.Makes c := (compiler.meets_answer exp request).of_ok hcompile
  have hpossible := (hc.meets_possible hcube hctx).of_error hfail
  cases hpossible.expected with
  | exceeded hmost hlt => exact .inl ⟨_, _, rfl, hmost, hlt⟩
  | notNumber hkind => exact .inr (.inl (.inl ⟨_, rfl, hkind⟩))
  | notBoolean => exact .inr (.inl (.inr rfl))
  | emptyTuple => exact .inr (.inr ⟨rfl, hpossible.memberless rfl⟩)

namespace Sales

theorem sold_stands : sold.Stands .sales :=
  ⟨rfl, .cons (List.get_mem _ _) (.cons (List.get_mem _ _) .nil)⟩

/-- A cell that says no more than that something was sold cannot be added up. -/
theorem evaluate_doubled_sold :
    ∃ c, (Compiler.mk .sales {}).answer (.arithmetic .add .currentValue .currentValue) .numeric =
        .ok c ∧ c.evaluate sold = fail (.kindMismatch .numeric .boolean) ∧
      ((∃ kind, CalcError.kindMismatch .numeric .boolean = .kindMismatch .numeric kind ∧
        (kind = .boolean ∨ kind = .string)) ∨
        CalcError.kindMismatch .numeric .boolean = .kindMismatch .boolean .string) := by
  have hcompile : (Compiler.mk .sales {}).answer (.arithmetic .add .currentValue .currentValue)
      .numeric = .ok (.arithmetic .add .currentValue .currentValue) := rfl
  have hfail : (Calc.arithmetic .add .currentValue .currentValue).evaluate sold =
      fail (.kindMismatch .numeric .boolean) := rfl
  refine ⟨_, hcompile, hfail, ?_⟩
  rcases Compiler.error_cases_of_evaluate hcompile Cube.sales_isSound sold_stands hfail with
    ⟨_, _, hlimit, -⟩ | hkind | ⟨harity, -⟩
  · cases hlimit
  · exact hkind
  · cases harity

/-- A literal of the tuple without members is compiled, and its evaluation finds the tuple too short
for a list of members. -/
theorem emptyTuple_refused :
    ∃ c, (Compiler.mk .sales {}).compile (.set [.tuple []]) = .ok c ∧ Cube.sales.IsSound ∧
      start.Stands .sales ∧ c.evaluate start = fail (.arityMismatch 1 0) ∧
      ¬∀ cause, c.evaluate start = fail cause →
        (∃ attempted most, cause = .limitExceeded attempted most) ∨
          ∃ kind, cause = .kindMismatch .numeric kind ∨ cause = .kindMismatch .boolean kind := by
  have hfail : (Calc.setLiteral [.tupleLiteral []] .unbounded).evaluate start =
      fail (.arityMismatch 1 0) := rfl
  refine ⟨_, rfl, Cube.sales_isSound, start_stands, hfail, fun hall => ?_⟩
  rcases hall _ hfail with ⟨_, _, hlimit⟩ | ⟨_, hnumber | hboolean⟩
  · cases hlimit
  · cases hnumber
  · cases hboolean

end Sales

end CubeCalc
