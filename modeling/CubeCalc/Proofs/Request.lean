import CubeCalc.Proofs.Configured
/-!
# Requests

What a compiler can be asked for: the calc that an expression naturally comes to, or one of a kind
or a style. Whatever is asked for, the answer is a compiled calc, and another configuration answers
with the same one under its own limits and switches.
-/

namespace CubeCalc.Compiler

open Outcome Calc

inductive Request where
  | natural
  | styles (styles : List ResultStyle)
  | scalar
  | numeric
  | boolean
  | member
  | set
  | list (isMutable : Bool)
  | iterable
  | void

def answer (compiler : Compiler) (exp : Exp) : Request → Outcome Calc
  | .natural => compiler.compile exp
  | .styles styles => compiler.compileAs exp styles
  | .scalar => compiler.compileScalar exp
  | .numeric => compiler.compileNumeric exp
  | .boolean => compiler.compileBoolean exp
  | .member => compiler.compileMember exp
  | .set => compiler.compileSet exp
  | .list isMutable => compiler.compileList exp isMutable
  | .iterable => compiler.compileIterable exp
  | .void => compiler.compileVoid exp

theorem meets_compile_bind {compiler : Compiler} {exp : Exp} {f : Calc → Outcome Calc}
    {P : Calc → Calc → Prop} (hf : ∀ c, compiler.Makes c →
      Meets (fun own => compiler.Makes own ∧ P c own) Failure.IsError (f c)) :
    Meets compiler.Makes Failure.IsError (compiler.compile exp >>= f) :=
  (compiler.meets_compile exp).bind fun c hc => (hf c hc).mono (fun _ h => h.1) fun _ h => h

theorem meets_answer (compiler : Compiler) (exp : Exp) (request : Request) :
    Meets compiler.Makes Failure.IsError (compiler.answer exp request) := by
  cases request with
  | natural => exact compiler.meets_compile exp
  | styles styles => exact meets_compile_bind fun c hc => meets_adapt hc styles
  | scalar => exact meets_compile_bind fun c hc => meets_asScalar hc
  | numeric => exact meets_compile_bind fun c hc => meets_asNumeric hc
  | boolean => exact meets_compile_bind fun c hc => meets_asBoolean hc
  | member => exact meets_compile_bind fun c hc => meets_asMember hc
  | set => exact meets_compile_bind fun c hc => meets_asSet hc
  | list isMutable => exact meets_compile_bind fun c hc => meets_asList hc isMutable
  | iterable => exact meets_compile_bind fun c hc => meets_asIterable hc
  | void => exact (compiler.meets_compile exp).bind fun c hc => .effect hc

section Configured

variable {cube : Cube} {config config' : CalcConfig} {exp : Exp}

theorem compile_bind_configured {f g : Calc → Outcome Calc}
    (hfg : ∀ c, g (configured config' c) = (f c).map (configured config')) :
    (Compiler.mk cube config').compile exp >>= g =
      ((Compiler.mk cube config).compile exp >>= f).map (configured config') := by
  have hcompile : (Compiler.mk cube config').compile exp =
      ((Compiler.mk cube config).compile exp).map (configured config') := compile_configured exp
  rw [hcompile, bind_map, map_bind]
  exact bind_congr fun c _ => hfg c

/-- Another configuration answers with the same calc under its limits and switches. -/
theorem answer_configured (request : Request) : (Compiler.mk cube config').answer exp request =
    ((Compiler.mk cube config).answer exp request).map (configured config') := by
  cases request with
  | natural => exact compile_configured exp
  | styles styles => exact compile_bind_configured fun c => adapt_configured c styles _
  | scalar => exact compile_bind_configured asScalar_configured
  | numeric => exact compile_bind_configured asNumeric_configured
  | boolean => exact compile_bind_configured asBoolean_configured
  | member => exact compile_bind_configured asMember_configured
  | set => exact compile_bind_configured asSet_configured
  | list isMutable => exact compile_bind_configured fun c => asList_configured c isMutable _
  | iterable => exact compile_bind_configured fun c => asIterable_configured c _
  | void => exact compile_bind_configured fun c => rfl

end Configured

end CubeCalc.Compiler
