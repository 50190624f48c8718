import CubeCalc.Calc
/-!
# Simplified contexts

Where a calc does not depend on a hierarchy, its value is the same at the hierarchy's default
member. Contexts that differ only in such hierarchies become one.
-/

namespace CubeCalc.Calc

/-- Whether a hierarchy is reset: it does not matter, and its current member is neither an all
member nor the default already. -/
def resets (c : Calc) (ctx : Context) (h : Hierarchy) : Outcome Bool := do
  let m ← ctx.member h
  return !m.isAll && !c.dependsOn h && !(m == h.defaultMember)

/-- The context with the hierarchies that do not matter reset, if there are any to reset. To leave
out empty cells takes the full context, so nothing is reset then. -/
def simplify? (c : Calc) (ctx : Context) : Outcome (Option Context) :=
  if ctx.nonEmpty then .ok none
  else
    ctx.cube.hierarchies.foldlM
      (fun simplified? h => do
        if ← c.resets ctx h then return some (← (simplified?.getD ctx).move h.defaultMember)
        else return simplified?)
      none

/-- The context in which a calc is evaluated, simplified or as it is. -/
def contextFor (c : Calc) (simplify : Bool) (ctx : Context) : Outcome Context := do
  if simplify then return (← c.simplify? ctx).getD ctx
  else return ctx

end CubeCalc.Calc
