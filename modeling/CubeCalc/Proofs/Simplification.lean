import CubeCalc.Proofs.Configured
import CubeCalc.Proofs.Dependency
/-!
# Simplified contexts change no value

A set may be evaluated in a simplified context instead of the caller's own. Its dependencies are
sound, so that it has the same tuples there, and all that is evaluated for its tuples is evaluated
next to the caller's context in any case.
-/

namespace CubeCalc

open Outcome Context Calc

variable {cube : Cube} {config config' : CalcConfig} {c set : Calc} {ctx : Context}

/-- Two calcs have one value wherever a context stands. -/
def Calc.SameAs (cube : Cube) (c other : Calc) : Prop :=
  ∀ ctx : Context, ctx.Stands cube → c.evaluate ctx = other.evaluate ctx

theorem evaluateMembers_configured {calcs : List Calc}
    (hcalcs : ∀ c ∈ calcs, (configured config' c).evaluate ctx = c.evaluate ctx) :
    evaluateMembers ctx (configuredAll config' calcs) = evaluateMembers ctx calcs := by
  induction calcs with
  | nil => rfl
  | cons c rest ih =>
    rw [List.forall_mem_cons] at hcalcs
    rw [configuredAll, evaluateMembers, evaluateMembers, hcalcs.1, ih hcalcs.2]

theorem evaluateElements_configured {calcs : List Calc}
    (hcalcs : ∀ c ∈ calcs, (configured config' c).evaluate ctx = c.evaluate ctx) (l : TupleList) :
    evaluateElements ctx l (configuredAll config' calcs) = evaluateElements ctx l calcs := by
  induction calcs generalizing l with
  | nil => rfl
  | cons c rest ih =>
    rw [List.forall_mem_cons] at hcalcs
    rw [configuredAll, evaluateElements, evaluateElements, hcalcs.1]
    simp only [ih hcalcs.2]

theorem IsDetermined.configured (hset : set.IsDetermined cube)
    (hsame : (configured config' set).SameAs cube set) :
    (configured config' set).IsDetermined cube := by
  intro ctx₁ ctx₂ h₁ h₂ hempty hagree
  simp only [dependsOn_configured] at hagree
  rw [hsame ctx₁ h₁, hsame ctx₂ h₂]
  exact hset ctx₁ ctx₂ h₁ h₂ hempty hagree

/-- A walk in a standing context is told by the visits in standing contexts. -/
theorem walk_visit_congr {β : Type} {limit : RowLimit} (hcube : cube.IsSound)
    {hs : List Hierarchy} {source : TupleSource}
    (hsource : (Regime.sound hcube limit).Sources hs source)
    (hhs : ∀ h ∈ hs, h ∈ cube.hierarchies) (hctx : ctx.Stands cube) {start : β}
    {visit₁ visit₂ : β → Tuple → Context → Outcome β}
    (hvisit : ∀ result row here, here.Stands cube →
      visit₁ result row here = visit₂ result row here) :
    source.walk ctx start visit₁ = source.walk ctx start visit₂ := by
  refine walk_congr hcube hsource hhs hctx hctx (.refl (fun _ => True) ctx)
    fun result row here₁ here₂ _ h₁ h₂ _ hagree => ?_
  rw [hagree.eq_of_forall h₁ h₂ fun _ _ => .inl trivial]
  exact hvisit result row here₂ h₂

/-- A set has the same tuples in the contexts that two configurations have it evaluated in. -/
theorem Calc.SameAs.evaluate_set (hsame : (configured config' set).SameAs cube set)
    (hcube : cube.IsSound) (hset : set.IsDetermined cube) (simplify simplify' : Bool)
    (hctx : ctx.Stands cube) :
    ∃ here here' : Context, (configured config' set).contextFor simplify' ctx = .ok here' ∧
      set.contextFor simplify ctx = .ok here ∧ here.Stands cube ∧
        (configured config' set).evaluate here' = set.evaluate here := by
  obtain ⟨here, heq, hstands, hvalue⟩ := hset.simplified hcube simplify hctx
  obtain ⟨here', heq', -, hvalue'⟩ :=
    (IsDetermined.configured hset hsame).simplified hcube simplify' hctx
  refine ⟨here, here', heq', heq, hstands, ?_⟩
  rw [hvalue', hsame ctx hctx, hvalue]

theorem Calc.SameAs.filter (hcube : cube.IsSound) (hlimit : config'.limit = config.limit)
    {condition : Calc} (hformed : set.Formed cube config) (htype : set.type.isSet = true)
    (huniform : set.everySet uniform = true) (hset : (configured config' set).SameAs cube set)
    (hcondition : (configured config' condition).SameAs cube condition) :
    (configured config' (.filter set condition config.limit config.simplifyContext)).SameAs cube
      (.filter set condition config.limit config.simplifyContext) := by
  intro ctx hctx
  obtain ⟨here, here', heq', heq, hstands, hvalue⟩ := hset.evaluate_set hcube
    (isDetermined hcube hformed huniform) config.simplifyContext config'.simplifyContext hctx
  have htuples := Regime.meets_evaluate hformed (Regime.suits_sound hcube huniform) hstands
  rw [Calc.configured, evaluate, evaluate, heq, heq', Outcome.ok_bind, Outcome.ok_bind, hvalue,
    hlimit]
  refine Outcome.bind_congr fun v hv => Outcome.bind_congr fun source hsource => ?_
  have hrows := (Regime.Fits.toSource (htuples.of_ok hv) htype).of_ok hsource
  rw [walk_visit_congr hcube hrows hformed.admits.spans_mem hctx fun kept row inner hinner => ?_]
  rw [hcondition inner hinner]

theorem Calc.SameAs.order (hcube : cube.IsSound) {key : Calc} {descending : Bool}
    (hformed : set.Formed cube config) (htype : set.type.isSet = true)
    (hstyle : set.style.isList = true) (huniform : set.everySet uniform = true)
    (hset : (configured config' set).SameAs cube set)
    (hkey : (configured config' key).SameAs cube key) :
    (configured config' (.order set key descending config.simplifyContext)).SameAs cube
      (.order set key descending config.simplifyContext) := by
  intro ctx hctx
  obtain ⟨here, here', heq', heq, hstands, hvalue⟩ := hset.evaluate_set hcube
    (isDetermined hcube hformed huniform) config.simplifyContext config'.simplifyContext hctx
  have htuples := Regime.meets_evaluate hformed (Regime.suits_sound hcube huniform) hstands
  rw [Calc.configured, evaluate, evaluate, heq, heq', Outcome.ok_bind, Outcome.ok_bind, hvalue]
  refine Outcome.bind_congr fun v hv => Outcome.bind_congr fun tuples hlist => ?_
  have hrows : (Regime.sound hcube config.limit).Sources set.type.spans (.list tuples) :=
    (Regime.Fits.toList (htuples.of_ok hv) htype hstyle).of_ok hlist
  rw [walk_visit_congr hcube hrows hformed.admits.spans_mem hctx fun keys row inner hinner => ?_]
  rw [hkey inner hinner]

theorem Calc.SameAs.aggregate (hcube : cube.IsSound) {value : Calc} {function : AggregateFunction}
    (hformed : set.Formed cube config) (htype : set.type.isSet = true)
    (huniform : set.everySet uniform = true) (hset : (configured config' set).SameAs cube set)
    (hvalue : (configured config' value).SameAs cube value) :
    (configured config' (.aggregate set value function config.simplifyContext)).SameAs cube
      (.aggregate set value function config.simplifyContext) := by
  intro ctx hctx
  obtain ⟨here, here', heq', heq, hstands, hset'⟩ := hset.evaluate_set hcube
    (isDetermined hcube hformed huniform) config.simplifyContext config'.simplifyContext hctx
  have htuples := Regime.meets_evaluate hformed (Regime.suits_sound hcube huniform) hstands
  rw [Calc.configured, evaluate, evaluate, heq, heq', Outcome.ok_bind, Outcome.ok_bind, hset']
  refine Outcome.bind_congr fun v hv => Outcome.bind_congr fun source hsource => ?_
  have hrows := (Regime.Fits.toSource (htuples.of_ok hv) htype).of_ok hsource
  rw [walk_visit_congr hcube hrows hformed.admits.spans_mem hctx
    fun statistics row inner hinner => ?_]
  rw [hvalue inner hinner]

/-- With the same limit, a compiled calc has the same value whatever the switches say. -/
theorem sameAs_configured (hcube : cube.IsSound) (hlimit : config'.limit = config.limit)
    (hc : c.Formed cube config) (huniform : c.everySet uniform = true) :
    (configured config' c).SameAs cube c := by
  induction hc with
  | constant value | currentValue | currentMember _ | memberLiteral _ _ => intro ctx _; rfl
  | memberValue hmembers htypes ih | tupleLiteral hmembers htypes ih =>
    intro ctx hctx
    have hsame := fun c hc => ih c hc (everySet_child huniform hc) ctx hctx
    rw [Calc.configured, evaluate, evaluate, evaluateMembers_configured hsame]
  | tupleValue _ _ ih | memberName _ _ ih | memberParent _ _ ih | memberLevel _ _ ih =>
    intro ctx hctx
    rw [Calc.configured, evaluate, evaluate,
      ih (everySet_child huniform (List.mem_singleton_self _)) ctx hctx]
  | memberHierarchy _ _ ih | not _ _ ih | copiedList _ _ _ ih =>
    intro ctx hctx
    rw [Calc.configured, evaluate, evaluate,
      ih (everySet_child huniform (List.mem_singleton_self _)) ctx hctx]
  | memberChildren _ _ ih | packedList _ _ _ ih =>
    intro ctx hctx
    rw [Calc.configured, evaluate, evaluate, hlimit,
      ih (everySet_child huniform (List.mem_singleton_self _)) ctx hctx]
  | effect _ ih =>
    intro ctx hctx
    rw [Calc.configured, evaluate, evaluate, style_configured,
      ih (everySet_child huniform (List.mem_singleton_self _)) ctx hctx]
  | hierarchyMembers hh =>
    intro ctx _
    rw [Calc.configured, hlimit]
  | levelMembers hh depth =>
    intro ctx _
    rw [Calc.configured, hlimit]
  | @setLiteral elements first hfirst helements htypes harity ih =>
    intro ctx hctx
    have hsame := fun c hc => ih c hc (everySet_child huniform hc) ctx hctx
    rw [Calc.configured, evaluate, evaluate, hlimit]
    simp only [evaluateElements_configured hsame]
    simp only [configuredAll_eq_map, List.head?_map, Option.map_map, Function.comp_def,
      type_configured, List.length_map]
  | crossJoin _ _ _ _ _ _ ihleft ihright =>
    intro ctx hctx
    rw [Calc.configured, evaluate, evaluate, hlimit,
      ihleft (everySet_child huniform List.mem_cons_self) ctx hctx,
      ihright (everySet_child huniform (by simp [Calc.children])) ctx hctx]
  | filter hset hsetType _ _ ihset ihcondition =>
    have huniformSet := everySet_child huniform List.mem_cons_self
    exact .filter hcube hlimit hset hsetType huniformSet (ihset huniformSet)
      (ihcondition (everySet_child huniform (by simp [Calc.children])))
  | order hset hsetType hsetStyle _ _ descending ihset ihkey =>
    have huniformSet := everySet_child huniform List.mem_cons_self
    exact .order hcube hset hsetType hsetStyle huniformSet (ihset huniformSet)
      (ihkey (everySet_child huniform (by simp [Calc.children])))
  | aggregate hset hsetType _ _ function ihset ihvalue =>
    have huniformSet := everySet_child huniform List.mem_cons_self
    exact .aggregate hcube hset hsetType huniformSet (ihset huniformSet)
      (ihvalue (everySet_child huniform (by simp [Calc.children])))
  | @walkCount set hset hsetType ihset =>
    intro ctx hctx
    have huniformSet := everySet_child huniform List.mem_cons_self
    obtain ⟨here, here', heq', heq, -, hvalue⟩ := (ihset huniformSet).evaluate_set hcube
      (isDetermined hcube hset huniformSet) config.simplifyContext config'.simplifyContext hctx
    rw [Calc.configured, evaluate, evaluate, heq, heq', Outcome.ok_bind, Outcome.ok_bind, hvalue]
  | listCount _ _ _ ihset =>
    intro ctx hctx
    rw [Calc.configured, evaluate, evaluate,
      ihset (everySet_child huniform List.mem_cons_self) ctx hctx]
  | arithmetic _ _ _ _ _ ihleft ihright | comparison _ _ _ _ _ ihleft ihright =>
    intro ctx hctx
    rw [Calc.configured, evaluate, evaluate,
      ihleft (everySet_child huniform List.mem_cons_self) ctx hctx,
      ihright (everySet_child huniform (by simp [Calc.children])) ctx hctx]
  | and _ _ _ _ ihleft ihright | or _ _ _ _ ihleft ihright =>
    intro ctx hctx
    rw [Calc.configured, evaluate, evaluate,
      ihleft (everySet_child huniform List.mem_cons_self) ctx hctx,
      ihright (everySet_child huniform (by simp [Calc.children])) ctx hctx]
  | iif _ _ _ _ _ _ ihcondition ihthen ihelse =>
    intro ctx hctx
    rw [Calc.configured, evaluate, evaluate,
      ihcondition (everySet_child huniform List.mem_cons_self) ctx hctx,
      ihthen (everySet_child huniform (by simp [Calc.children])) ctx hctx,
      ihelse (everySet_child huniform (by simp [Calc.children])) ctx hctx]

/-- Simplifying contexts changes no result. An expression is compiled with and without it alike, and
both calcs have one value, or one failure, in every context of members of the cube. -/
theorem Compiler.evaluate_eq_of_simplify {compiler : Compiler} {exp : Exp} {c : Calc}
    (hcompile : compiler.compile exp = .ok c) (huniform : c.everySet uniform = true)
    (hcube : compiler.cube.IsSound) (simplify : Bool) :
    ∃ other, (Compiler.mk compiler.cube
        { compiler.config with simplifyContext := simplify }).compile exp = .ok other ∧
      ∀ ctx : Context, ctx.Stands compiler.cube → other.evaluate ctx = c.evaluate ctx := by
  have hc := (compiler.meets_compile exp).of_ok hcompile
  let config' := { compiler.config with simplifyContext := simplify }
  have hlimit : config'.limit = compiler.config.limit := rfl
  refine ⟨configured config' c, ?_, ?_⟩
  · exact (Compiler.compile_configured exp).trans (congrArg _ hcompile)
  · exact sameAs_configured hcube hlimit hc huniform

namespace Sales

/-- Some takings in either town, seen from Bergen in the first year. -/
def takings : Context :=
  ⟨.sales, ⟨2, [([firstYear, bergen], .number ⟨0x4008000000000000⟩),
    ([firstYear, oslo], .number ⟨0x3FF0000000000000⟩)]⟩, [firstYear, bergen], false⟩

theorem takings_stands : takings.Stands .sales :=
  ⟨rfl, .cons (List.get_mem _ _) (.cons (List.get_mem _ _) .nil)⟩

/-- The years are listed from another place with simplification, as neither the year nor the town
matters to them. What is added up is what was taken in Bergen all the same. -/
theorem evaluate_total_of_not_simplify :
    (Calc.hierarchyMembers time .unbounded).simplify? takings =
      .ok (some { takings with members := start.members }) ∧
    ∃ plain, (Compiler.mk .sales { simplifyContext := false }).compile total = .ok plain ∧
      plain = .aggregate (.hierarchyMembers time .unbounded) .currentValue .sum false ∧
      plain.evaluate takings = totalCalc.evaluate takings ∧
      totalCalc.evaluate takings = .ok (.number (.ofNat 6)) := by
  have hcompile : (Compiler.mk .sales {}).compile total = .ok totalCalc := rfl
  obtain ⟨plain, hplain, heq⟩ :=
    Compiler.evaluate_eq_of_simplify hcompile rfl Cube.sales_isSound false
  refine ⟨rfl, plain, hplain, ?_, heq takings takings_stands, rfl⟩
  exact (Except.ok.inj hplain).symm

end Sales

end CubeCalc
