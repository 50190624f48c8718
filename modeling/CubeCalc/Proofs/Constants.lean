import CubeCalc.Proofs.Request
/-!
# Constants of compiled calcs

Compiling makes up no constants and drops none. What is adapted or demanded keeps its constants, so
that those of a calc are the literals of its expression, from left to right.
-/

namespace CubeCalc

/-! ### Literals and constants -/

namespace Exp

mutual

/-- The literals of an expression, from left to right. -/
def literals : Exp → List Literal
  | .literal value => [value]
  | .member _ | .currentMember _ | .currentValue | .members _ | .levelMembers _ _ => []
  | .children e | .parent e | .name e | .level e | .hierarchy e => e.literals
  | .count e _ | .not e => e.literals
  | .tuple exps | .set exps => literalsOfAll exps
  | .crossJoin e f | .filter e f | .order e f _ => e.literals ++ f.literals
  | .arithmetic _ e f | .comparison _ e f | .and e f | .or e f => e.literals ++ f.literals
  | .aggregate _ e value? => e.literals ++ literalsOf? value?
  | .iif condition thenExp elseExp =>
    condition.literals ++ thenExp.literals ++ elseExp.literals

def literalsOfAll : List Exp → List Literal
  | [] => []
  | exp :: rest => exp.literals ++ literalsOfAll rest

def literalsOf? : Option Exp → List Literal
  | none => []
  | some exp => exp.literals

end

end Exp

namespace Calc

/-- The constants of a calc, from left to right. -/
def constants : Calc → List Value :=
  foldTree fun c below => (match c with
    | .constant value => [value]
    | _ => []) ++ below.flatten

theorem constants_eq (c : Calc) : c.constants = (match c with
    | .constant value => [value]
    | _ => []) ++ c.children.flatMap constants := by
  rw [constants, foldTree_eq]
  rfl

theorem constants_of_children {c : Calc} (hc : c.children ≠ []) :
    c.constants = c.children.flatMap constants := by
  rw [constants_eq]
  cases c with
  | constant value => exact absurd rfl hc
  | _ => rfl

theorem constants_of_one {c child : Calc} (hc : c.children = [child]) :
    c.constants = child.constants := by
  rw [constants_of_children (by simp [hc]), hc, List.flatMap_singleton]

theorem constants_of_two {c left right : Calc} (hc : c.children = [left, right]) :
    c.constants = left.constants ++ right.constants := by
  rw [constants_of_children (by simp [hc]), hc, List.flatMap_cons, List.flatMap_singleton]

theorem constants_subset {c child : Calc} (hchild : child ∈ c.children) :
    child.constants ⊆ c.constants := by
  rw [constants_eq c]
  exact fun value hvalue => List.mem_append_right _ (List.mem_flatMap.mpr ⟨child, hchild, hvalue⟩)

open Outcome

/-! ### Demands and adaptations -/

/-- What a calc is turned into, if it is, has the constants of the calc. -/
def Keeps (c : Calc) (o : Outcome Calc) : Prop :=
  Meets (·.constants = c.constants) (fun _ => True) o

variable {c : Calc}

theorem Keeps.bind {o : Outcome Calc} {f : Calc → Outcome Calc} (ho : c.Keeps o)
    (hf : ∀ own : Calc, own.Keeps (f own)) : c.Keeps (o >>= f) :=
  Meets.bind ho fun own hown => hown ▸ hf own

theorem keeps_demand (c : Calc) (expected : Expected) (ok : StaticType → Bool) :
    c.Keeps (c.demand expected ok) := by
  rw [demand]
  split
  · rfl
  · trivial

theorem constants_checked {values : List Value} (hc : c.constants = values) :
    Meets (·.constants = values) (fun _ => True) c.checked := by
  rw [checked]
  split
  · exact hc
  · trivial

theorem keeps_asScalar (c : Calc) : c.Keeps c.asScalar := by
  rw [asScalar]
  split
  · exact constants_of_one rfl
  · exact constants_of_one rfl
  · exact c.keeps_demand _ _

theorem keeps_asNumeric (c : Calc) : c.Keeps c.asNumeric :=
  c.keeps_asScalar.bind fun own => own.keeps_demand _ _

theorem keeps_asBoolean (c : Calc) : c.Keeps c.asBoolean :=
  c.keeps_asScalar.bind fun own => own.keeps_demand _ _

theorem keeps_adapt (c : Calc) (styles : List ResultStyle) (limit : RowLimit) :
    c.Keeps (c.adapt styles limit) := by
  rw [Keeps, adapt]
  refine Meets.bind (P := fun _ => True) ?_ fun met _ => ?_
  · cases c.style.negotiate styles <;> trivial
  · obtain ⟨style, adaptation⟩ := met
    cases adaptation with
    | asIs => rfl
    | materialize =>
      simp only [adapted, makePackedList]
      split
      · exact constants_checked (constants_of_one rfl)
      · trivial
    | copy => exact constants_checked (constants_of_one rfl)

theorem keeps_asList (c : Calc) (isMutable : Bool) (limit : RowLimit) :
    c.Keeps (c.asList isMutable limit) :=
  (c.keeps_demand _ _).bind fun own => own.keeps_adapt _ _

theorem keeps_asIterable (c : Calc) (limit : RowLimit) : c.Keeps (c.asIterable limit) :=
  (c.keeps_demand _ _).bind fun own => own.keeps_adapt _ _

end Calc

/-! ### Compiling -/

namespace Compiler

open Outcome Calc

variable (compiler : Compiler)

/-- The literals of an expression as values. -/
abbrev Spells (exp : Exp) (c : Calc) : Prop := c.constants = exp.literals.map Literal.toValue

/-- A calc is put to a demand before it becomes part of another. -/
theorem constants_bind {β : Type} {values : List Value} {P : β → Prop} {o : Outcome Calc}
    {demand : Calc → Outcome Calc} {f : Calc → Outcome β}
    (ho : Meets (·.constants = values) (fun _ => True) o) (hdemand : ∀ c : Calc, c.Keeps (demand c))
    (hf : ∀ own, own.constants = values → Meets P (fun _ => True) (f own)) :
    Meets P (fun _ => True) (o >>= fun c => demand c >>= f) :=
  ho.bind fun c hc => Meets.bind (hdemand c) fun own hown => hf own (hown.trans hc)

theorem spells_two {e f : Exp} {left right c : Calc} (hleft : Spells e left)
    (hright : Spells f right) (hc : c.children = [left, right]) :
    c.constants = (e.literals ++ f.literals).map Literal.toValue := by
  rw [constants_of_two hc, hleft, hright, List.map_append]

theorem constants_makeSetLiteral {elements : List Calc} {limit : RowLimit} {values : List Value}
    (helements : elements.flatMap constants = values) :
    Meets (·.constants = values) (fun _ => True) (makeSetLiteral elements limit) := by
  cases elements with
  | nil => trivial
  | cons first rest =>
    simp only [makeSetLiteral]
    split
    · trivial
    · exact (constants_eq _).trans helements

theorem constants_makeCount (set : Calc) (includeEmpty simplify : Bool) :
    (makeCount set includeEmpty simplify).constants = set.constants := by
  cases includeEmpty with
  | true => exact constants_of_one rfl
  | false => exact (constants_of_two rfl).trans (List.append_nil _)

theorem constants_makeAggregate (set : Calc) (value? : Option Calc) (function : AggregateFunction)
    (simplify : Bool) : (makeAggregate set value? function simplify).constants =
      set.constants ++ value?.toList.flatMap constants := by
  have hboth : ∀ value : Calc, (aggregate set value function simplify).constants =
      set.constants ++ value.constants := fun _ => constants_of_two rfl
  cases value? with
  | none => exact hboth currentValue
  | some value =>
    rw [Option.toList_some, List.flatMap_singleton]
    exact hboth value

mutual

/-- The constants of a compiled calc are the literals of its expression. -/
theorem constants_compile :
    ∀ exp : Exp, Meets (Spells exp) (fun _ => True) (compiler.compile exp)
  | .literal value => by
    rw [compile]
    exact List.append_nil _
  | .currentValue => by
    rw [compile]
    rfl
  | .member name => by
    rw [compile]
    cases compiler.cube.resolveMember name <;> trivial
  | .currentMember name | .members name => by
    rw [compile]
    cases compiler.cube.resolveHierarchy name <;> trivial
  | .levelMembers name depth => by
    rw [compile]
    cases compiler.cube.resolveHierarchy name with
    | error failure => trivial
    | ok h =>
      simp only [ok_bind]
      split <;> trivial
  | .children member | .name member | .level member | .hierarchy member => by
    rw [compile]
    exact constants_bind (constants_compile member) (fun c => c.keeps_demand _ _)
      fun own hown => (constants_of_one rfl).trans hown
  | .parent member => by
    rw [compile]
    exact constants_bind (constants_compile member) (fun c => c.keeps_demand _ _)
      fun own hown => constants_checked ((constants_of_one rfl).trans hown)
  | .not operand => by
    rw [compile]
    exact constants_bind (constants_compile operand) keeps_asBoolean
      fun own hown => (constants_of_one rfl).trans hown
  | .tuple members => by
    rw [compile]
    exact (constants_compileAll (fun c => c.keeps_demand _ _) members).bind
      fun calcs hcalcs => (constants_eq _).trans hcalcs
  | .set elements => by
    rw [compile]
    exact (constants_compileAll (fun c => c.keeps_demand _ _) elements).bind
      fun calcs hcalcs => constants_makeSetLiteral hcalcs
  | .crossJoin left right => by
    rw [compile]
    refine constants_bind (constants_compile left) (fun c => c.keeps_asList _ _) fun l hl => ?_
    exact constants_bind (constants_compile right) (fun c => c.keeps_asList _ _)
      fun r hr => spells_two hl hr rfl
  | .filter set condition => by
    rw [compile]
    refine constants_bind (constants_compile set) (fun c => c.keeps_asIterable _) fun l hl => ?_
    exact constants_bind (constants_compile condition) keeps_asBoolean
      fun r hr => constants_checked (spells_two hl hr rfl)
  | .order set key descending => by
    rw [compile]
    refine constants_bind (constants_compile set) (fun c => c.keeps_asList _ _) fun l hl => ?_
    exact constants_bind (constants_compile key) keeps_asNumeric
      fun r hr => constants_checked (spells_two hl hr rfl)
  | .aggregate function set value? => by
    rw [compile]
    refine (constants_compileScalar? value?).bind fun value? hvalue => ?_
    refine constants_bind (constants_compile set) (fun c => c.keeps_asIterable _) fun own hown => ?_
    change (makeAggregate own value? function _).constants = _
    rw [constants_makeAggregate, hown, hvalue, ← List.map_append]
    rfl
  | .count set includeEmpty => by
    rw [compile]
    refine constants_bind (constants_compile set) (fun c => c.keeps_demand _ _) fun own hown => ?_
    split
    · exact (constants_of_one rfl).trans hown
    · exact (constants_makeCount _ _ _).trans hown
  | .arithmetic op left right | .comparison op left right => by
    rw [compile]
    refine constants_bind (constants_compile left) keeps_asNumeric fun l hl => ?_
    exact constants_bind (constants_compile right) keeps_asNumeric fun r hr => spells_two hl hr rfl
  | .and left right | .or left right => by
    rw [compile]
    refine constants_bind (constants_compile left) keeps_asBoolean fun l hl => ?_
    exact constants_bind (constants_compile right) keeps_asBoolean fun r hr => spells_two hl hr rfl
  | .iif condition thenExp elseExp => by
    rw [compile]
    refine constants_bind (constants_compile condition) keeps_asBoolean fun c hc => ?_
    refine constants_bind (constants_compile thenExp) keeps_asScalar fun d hd => ?_
    refine constants_bind (constants_compile elseExp) keeps_asScalar fun e he => ?_
    change (iif c d e).constants = _
    rw [constants_of_children (show (iif c d e).children ≠ [] from List.cons_ne_nil _ _)]
    simp [children, Exp.literals, hc, hd, he]

theorem constants_compileAll {demand : Calc → Outcome Calc}
    (hdemand : ∀ c : Calc, c.Keeps (demand c)) : ∀ exps : List Exp, Meets
      (fun calcs => calcs.flatMap constants = (Exp.literalsOfAll exps).map Literal.toValue)
      (fun _ => True) (compiler.compileAll demand exps)
  | [] => by
    rw [compileAll]
    rfl
  | exp :: rest => by
    rw [compileAll, Exp.literalsOfAll]
    refine constants_bind (constants_compile exp) hdemand fun own hown => ?_
    refine (constants_compileAll hdemand rest).bind fun calcs hcalcs => ?_
    change (own :: calcs).flatMap constants = _
    rw [List.flatMap_cons, hown, hcalcs, List.map_append]

theorem constants_compileScalar? : ∀ exp? : Option Exp, Meets
      (fun c? => c?.toList.flatMap constants = (Exp.literalsOf? exp?).map Literal.toValue)
      (fun _ => True) (compiler.compileScalar? exp?)
  | none => by
    rw [compileScalar?]
    rfl
  | some exp => by
    rw [compileScalar?, Exp.literalsOf?]
    exact constants_bind (constants_compile exp) keeps_asScalar
      fun own hown => (List.flatMap_singleton _ _).trans hown

end

theorem constants_answer (exp : Exp) (request : Request) :
    Meets (Spells exp) (fun _ => True) (compiler.answer exp request) := by
  have hkeeps : ∀ {f : Calc → Outcome Calc}, (∀ c : Calc, c.Keeps (f c)) →
      Meets (Spells exp) (fun _ => True) (compiler.compile exp >>= f) := fun hf =>
    (compiler.constants_compile exp).bind fun c hc =>
      (hf c).mono (fun _ hown => hown.trans hc) fun _ h => h
  cases request with
  | natural => exact compiler.constants_compile exp
  | styles styles => exact hkeeps fun c => c.keeps_adapt _ _
  | scalar => exact hkeeps keeps_asScalar
  | numeric => exact hkeeps keeps_asNumeric
  | boolean => exact hkeeps keeps_asBoolean
  | member | set => exact hkeeps fun c => c.keeps_demand _ _
  | list isMutable => exact hkeeps fun c => c.keeps_asList _ _
  | iterable => exact hkeeps fun c => c.keeps_asIterable _
  | void => exact hkeeps fun c => constants_of_one rfl

end Compiler

end CubeCalc
