import CubeCalc.Proofs.Compiled
/-!
# Calcs under another configuration

A configuration only enters a calc as its row limits and as its switches for simplified contexts.
Exchanging them commutes with compilation, so that what one configuration compiles an expression to
tells what any other does.
-/

namespace CubeCalc

namespace Calc

variable (config : CalcConfig)

mutual

/-- The calc with the limits and the switches of a configuration. -/
def configured : Calc → Calc
  | .memberValue members => .memberValue (configuredAll members)
  | .tupleValue tuple => .tupleValue (configured tuple)
  | .tupleLiteral members => .tupleLiteral (configuredAll members)
  | .memberName member => .memberName (configured member)
  | .memberParent member => .memberParent (configured member)
  | .memberLevel member => .memberLevel (configured member)
  | .memberHierarchy member => .memberHierarchy (configured member)
  | .hierarchyMembers h _ => .hierarchyMembers h config.limit
  | .levelMembers h depth _ => .levelMembers h depth config.limit
  | .memberChildren member _ => .memberChildren (configured member) config.limit
  | .setLiteral elements _ => .setLiteral (configuredAll elements) config.limit
  | .crossJoin left right _ => .crossJoin (configured left) (configured right) config.limit
  | .filter set condition _ _ =>
    .filter (configured set) (configured condition) config.limit config.simplifyContext
  | .order set key descending _ =>
    .order (configured set) (configured key) descending config.simplifyContext
  | .aggregate set value function _ =>
    .aggregate (configured set) (configured value) function config.simplifyContext
  | .walkCount set _ => .walkCount (configured set) config.simplifyContext
  | .listCount set => .listCount (configured set)
  | .arithmetic op left right => .arithmetic op (configured left) (configured right)
  | .comparison op left right => .comparison op (configured left) (configured right)
  | .and left right => .and (configured left) (configured right)
  | .or left right => .or (configured left) (configured right)
  | .not operand => .not (configured operand)
  | .iif condition thenCalc elseCalc =>
    .iif (configured condition) (configured thenCalc) (configured elseCalc)
  | .packedList c style _ => .packedList (configured c) style config.limit
  | .copiedList c => .copiedList (configured c)
  | .effect c => .effect (configured c)
  | .custom own children => .custom own (configuredAll children)
  | c => c

def configuredAll : List Calc → List Calc
  | [] => []
  | c :: rest => configured c :: configuredAll rest

end

variable {config : CalcConfig}

theorem configuredAll_eq_map (calcs : List Calc) :
    configuredAll config calcs = calcs.map (configured config) := by
  induction calcs with
  | nil => rfl
  | cons c rest ih => rw [configuredAll, ih, List.map_cons]

theorem children_configured (c : Calc) :
    (configured config c).children = c.children.map (configured config) := by
  cases c <;> simp [configured, children, configuredAll_eq_map]

/-- What a fold makes of a calc does not change where its step looks past the configuration. -/
theorem foldTree_configured {β : Type} {f : Calc → List β → β}
    (hf : ∀ c bs, f (configured config c) bs = f c bs) (c : Calc) :
    foldTree f (configured config c) = foldTree f c := by
  induction c using children_induction with
  | step c ih =>
    rw [foldTree_eq, foldTree_eq f c, hf, children_configured, List.map_map]
    congr 1
    exact List.map_congr_left ih

@[simp]
theorem type_configured (c : Calc) : (configured config c).type = c.type := by
  refine foldTree_configured (fun c types => ?_) c
  -- Most forms take their types from as many children as they have.
  rcases types with _ | ⟨a, _ | ⟨b, _ | ⟨d, _ | ⟨e, rest⟩⟩⟩⟩ <;> cases c <;> rfl

@[simp]
theorem style_configured (c : Calc) : (configured config c).style = c.style := by
  cases c <;> rfl

theorem variant_configured (c : Calc) : (configured config c).variant = c.variant := by
  cases c <;> rfl

theorem rule_configured (c : Calc) : (configured config c).rule = c.rule := by
  cases c <;> rfl

theorem dependsOn_configured (h : Hierarchy) (c : Calc) :
    (configured config c).dependsOn h = c.dependsOn h := by
  refine foldTree_configured (fun c depends => ?_) c
  rw [rule_configured, children_configured, List.zip_map_left, List.map_map]
  congr 1
  refine List.map_congr_left fun child _ => ?_
  simp only [Function.comp_apply, Prod.map_fst, Prod.map_snd, id_eq, type_configured]

/-! ### Making and adapting -/

theorem checked_configured (c : Calc) :
    (configured config c).checked = c.checked.map (configured config) := by
  have hfits : (configured config c).fits = c.fits := by
    rw [fits, fits, variant_configured, type_configured, style_configured]
  rw [checked, checked, hfits, variant_configured, type_configured, style_configured]
  split <;> rfl

theorem demand_configured (c : Calc) (expected : Expected) (ok : StaticType → Bool) :
    (configured config c).demand expected ok = (c.demand expected ok).map (configured config) := by
  rw [demand, demand, type_configured]
  split <;> rfl

theorem asScalar_configured (c : Calc) :
    (configured config c).asScalar = c.asScalar.map (configured config) := by
  rw [asScalar, asScalar, type_configured]
  split
  · rfl
  · rfl
  · exact demand_configured c _ _

theorem asNumeric_configured (c : Calc) :
    (configured config c).asNumeric = c.asNumeric.map (configured config) := by
  rw [asNumeric, asNumeric, asScalar_configured, Outcome.bind_map, Outcome.map_bind]
  simp only [demand_configured]

theorem asBoolean_configured (c : Calc) :
    (configured config c).asBoolean = c.asBoolean.map (configured config) := by
  rw [asBoolean, asBoolean, asScalar_configured, Outcome.bind_map, Outcome.map_bind]
  simp only [demand_configured]

theorem asMember_configured (c : Calc) :
    (configured config c).asMember = c.asMember.map (configured config) :=
  demand_configured c _ _

theorem asElement_configured (c : Calc) :
    (configured config c).asElement = c.asElement.map (configured config) :=
  demand_configured c .memberOrTuple _

theorem asSet_configured (c : Calc) :
    (configured config c).asSet = c.asSet.map (configured config) :=
  demand_configured c _ _

theorem adapt_configured (c : Calc) (styles : List ResultStyle) (limit : RowLimit) :
    (configured config c).adapt styles config.limit =
      (c.adapt styles limit).map (configured config) := by
  rw [adapt, adapt, style_configured, Outcome.map_bind]
  refine Outcome.bind_congr fun met _ => ?_
  obtain ⟨style, adaptation⟩ := met
  cases adaptation with
  | asIs => rfl
  | materialize =>
    simp only [adapted, makePackedList]
    split
    · exact checked_configured (.packedList c style limit)
    · rfl
  | copy => exact checked_configured (.copiedList c)

theorem asList_configured (c : Calc) (isMutable : Bool) (limit : RowLimit) :
    (configured config c).asList isMutable config.limit =
      (c.asList isMutable limit).map (configured config) := by
  rw [asList, asList, asSet_configured, Outcome.bind_map, Outcome.map_bind]
  simp only [← adapt_configured]

theorem asIterable_configured (c : Calc) (limit : RowLimit) :
    (configured config c).asIterable config.limit =
      (c.asIterable limit).map (configured config) := by
  rw [asIterable, asIterable, asSet_configured, Outcome.bind_map, Outcome.map_bind]
  simp only [← adapt_configured]

theorem makeSetLiteral_configured (elements : List Calc) (limit : RowLimit) :
    makeSetLiteral (elements.map (configured config)) config.limit =
      (makeSetLiteral elements limit).map (configured config) := by
  cases elements with
  | nil => rfl
  | cons first rest =>
    have hfind : ((first :: rest).map (configured config)).find? (fun c =>
        max c.type.arity 1 ≠ max first.type.arity 1) =
        ((first :: rest).find? fun c => max c.type.arity 1 ≠ max first.type.arity 1).map
          (configured config) := by
      rw [List.find?_map]
      simp only [Function.comp_def, type_configured]
    rw [List.map_cons] at hfind
    simp only [List.map_cons, makeSetLiteral, type_configured, hfind]
    cases (first :: rest).find? fun c => max c.type.arity 1 ≠ max first.type.arity 1 with
    | none => simp [configured, configuredAll_eq_map]
    | some other => simp

end Calc

/-! ### Compiling -/

namespace Compiler

open Calc

variable {cube : Cube} {config config' : CalcConfig}

mutual

/-- Another configuration compiles an expression to the same calc under its limits and switches. -/
theorem compile_configured : ∀ exp : Exp, (Compiler.mk cube config').compile exp =
    ((Compiler.mk cube config).compile exp).map (configured config')
  | .literal value => by
    rw [compile, compile]
    rfl
  | .member name => by
    rw [compile, compile, Outcome.map_bind]
    rfl
  | .currentMember name => by
    rw [compile, compile, Outcome.map_bind]
    rfl
  | .currentValue => by
    rw [compile, compile]
    rfl
  | .members name => by
    rw [compile, compile, Outcome.map_bind]
    rfl
  | .levelMembers name depth => by
    rw [compile, compile, Outcome.map_bind]
    refine Outcome.bind_congr fun h _ => ?_
    split <;> rfl
  | .children member => by
    rw [compile, compile, compile_configured member]
    simp only [Outcome.bind_map, Outcome.map_bind, asMember_configured]
    rfl
  | .parent member => by
    rw [compile, compile, compile_configured member]
    simp only [Outcome.bind_map, Outcome.map_bind, asMember_configured]
    refine Outcome.bind_congr fun c _ => Outcome.bind_congr fun own _ => ?_
    exact checked_configured (.memberParent own)
  | .name member => by
    rw [compile, compile, compile_configured member]
    simp only [Outcome.bind_map, Outcome.map_bind, asMember_configured]
    rfl
  | .level member => by
    rw [compile, compile, compile_configured member]
    simp only [Outcome.bind_map, Outcome.map_bind, asMember_configured]
    rfl
  | .hierarchy member => by
    rw [compile, compile, compile_configured member]
    simp only [Outcome.bind_map, Outcome.map_bind, asMember_configured]
    rfl
  | .tuple members => by
    rw [compile, compile, compileAll_configured asMember_configured members]
    simp only [Outcome.bind_map, Outcome.map_bind, Outcome.map_pure, configured,
      configuredAll_eq_map]
    rfl
  | .set elements => by
    rw [compile, compile, compileAll_configured asElement_configured elements]
    simp only [Outcome.bind_map, Outcome.map_bind]
    exact Outcome.bind_congr fun own _ => makeSetLiteral_configured own _
  | .crossJoin left right => by
    rw [compile, compile, compile_configured left, compile_configured right]
    simp only [limit, Outcome.bind_map, Outcome.map_bind, asList_configured _ _ config.limit]
    rfl
  | .filter set condition => by
    rw [compile, compile, compile_configured set, compile_configured condition]
    simp only [limit, Outcome.bind_map, Outcome.map_bind, asIterable_configured _ config.limit,
      asBoolean_configured]
    refine Outcome.bind_congr fun c _ => Outcome.bind_congr fun own _ => ?_
    refine Outcome.bind_congr fun d _ => Outcome.bind_congr fun test _ => ?_
    exact checked_configured (.filter own test _ _)
  | .order set key descending => by
    rw [compile, compile, compile_configured set, compile_configured key]
    simp only [limit, Outcome.bind_map, Outcome.map_bind, asList_configured _ _ config.limit,
      asNumeric_configured]
    refine Outcome.bind_congr fun c _ => Outcome.bind_congr fun own _ => ?_
    refine Outcome.bind_congr fun d _ => Outcome.bind_congr fun by' _ => ?_
    exact checked_configured (.order own by' descending _)
  | .aggregate function set value? => by
    rw [compile, compile, compileScalar?_configured value?, compile_configured set]
    simp only [limit, Outcome.bind_map, Outcome.map_bind, asIterable_configured _ config.limit]
    refine Outcome.bind_congr fun value? _ => ?_
    cases value? <;> rfl
  | .count set includeEmpty => by
    rw [compile, compile, compile_configured set]
    simp only [Outcome.bind_map, Outcome.map_bind, asSet_configured, style_configured]
    refine Outcome.bind_congr fun c _ => Outcome.bind_congr fun own _ => ?_
    split
    · rfl
    · cases includeEmpty <;> rfl
  | .arithmetic op left right => by
    rw [compile, compile, compile_configured left, compile_configured right]
    simp only [Outcome.bind_map, Outcome.map_bind, asNumeric_configured]
    rfl
  | .comparison op left right => by
    rw [compile, compile, compile_configured left, compile_configured right]
    simp only [Outcome.bind_map, Outcome.map_bind, asNumeric_configured]
    rfl
  | .and left right => by
    rw [compile, compile, compile_configured left, compile_configured right]
    simp only [Outcome.bind_map, Outcome.map_bind, asBoolean_configured]
    rfl
  | .or left right => by
    rw [compile, compile, compile_configured left, compile_configured right]
    simp only [Outcome.bind_map, Outcome.map_bind, asBoolean_configured]
    rfl
  | .not operand => by
    rw [compile, compile, compile_configured operand]
    simp only [Outcome.bind_map, Outcome.map_bind, asBoolean_configured]
    rfl
  | .iif condition thenExp elseExp => by
    rw [compile, compile, compile_configured condition, compile_configured thenExp,
      compile_configured elseExp]
    simp only [Outcome.bind_map, Outcome.map_bind, asBoolean_configured, asScalar_configured]
    rfl

theorem compileAll_configured {demand : Calc → Outcome Calc}
    (hdemand : ∀ c, demand (configured config' c) = (demand c).map (configured config')) :
    ∀ exps : List Exp, (Compiler.mk cube config').compileAll demand exps =
      ((Compiler.mk cube config).compileAll demand exps).map (List.map (configured config'))
  | [] => by
    rw [compileAll, compileAll]
    rfl
  | exp :: rest => by
    rw [compileAll, compileAll, compile_configured exp, compileAll_configured hdemand rest]
    simp only [Outcome.bind_map, Outcome.map_bind, hdemand]
    rfl

theorem compileScalar?_configured :
    ∀ exp? : Option Exp, (Compiler.mk cube config').compileScalar? exp? =
      ((Compiler.mk cube config).compileScalar? exp?).map (Option.map (configured config'))
  | none => by
    rw [compileScalar?, compileScalar?]
    rfl
  | some exp => by
    rw [compileScalar?, compileScalar?, compile_configured exp]
    simp only [Outcome.bind_map, Outcome.map_bind, asScalar_configured]
    rfl

end

end Compiler

end CubeCalc
