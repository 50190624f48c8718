import CubeCalc.Proofs.Conformity
import CubeCalc.Proofs.Context
import CubeCalc.Proofs.Request
import CubeCalc.Proofs.Widening
/-!
# Row limits bound sets and nothing else

No set has more tuples than the limit allows, and a limit is only ever reported where it was
exceeded. Under a wider limit an evaluation repeats what it came to under a narrower one, unless it
came to the end of that.
-/

namespace CubeCalc

open Outcome Calc

variable {cube : Cube} {config config' : CalcConfig} {c : Calc} {ctx : Context}

/-! ### Two limits -/

theorem Calc.contextFor_configured (c : Calc) (simplify : Bool) (ctx : Context) :
    (configured config' c).contextFor simplify ctx = c.contextFor simplify ctx := by
  simp only [contextFor, simplify?, resets, dependsOn_configured]

/-- A value is read alike where the reader does not look into sets. -/
theorem Outcome.Follows.read {α γ δ : Type} {x y : Outcome Value} {reader : Value → Outcome α}
    {f : α → Outcome γ} {g : α → Outcome δ} {S : γ → δ → Prop} (h : Follows Value.Alike x y)
    (hreader : ∀ {v v' : Value}, v.Alike v' → reader v = reader v')
    (hfg : ∀ a, Follows S (f a) (g a)) :
    Follows S (x >>= fun v => reader v >>= f) (y >>= fun v => reader v >>= g) :=
  h.bind fun _ _ hv => hreader hv ▸ .bind_self _ hfg

theorem Calc.evaluateMembers_follows :
    ∀ {calcs : List Calc},
      (∀ c ∈ calcs, Follows Value.Alike (c.evaluate ctx) ((configured config' c).evaluate ctx)) →
      Follows Eq (evaluateMembers ctx calcs) (evaluateMembers ctx (configuredAll config' calcs))
  | [], _ => by
    rw [configuredAll]
    exact .refl (fun _ => rfl) _
  | c :: rest, hcalcs => by
    rw [List.forall_mem_cons] at hcalcs
    rw [configuredAll, evaluateMembers, evaluateMembers]
    refine hcalcs.1.read Value.Alike.toMember_eq fun m? => ?_
    cases m? with
    | none => exact .ok rfl
    | some m => exact (evaluateMembers_follows hcalcs.2).bind fun row? _ heq => heq ▸ .ok rfl

theorem Calc.evaluateElements_follows :
    ∀ {calcs : List Calc} {l l' : TupleList}, l.Alike l' →
      (∀ c ∈ calcs, Follows Value.Alike (c.evaluate ctx) ((configured config' c).evaluate ctx)) →
      Follows TupleList.Alike (evaluateElements ctx l calcs)
        (evaluateElements ctx l' (configuredAll config' calcs))
  | [], l, l', hl, _ => by
    rw [configuredAll, evaluateElements, evaluateElements]
    exact .ok hl
  | c :: rest, l, l', hl, hcalcs => by
    rw [List.forall_mem_cons] at hcalcs
    rw [configuredAll, evaluateElements, evaluateElements]
    refine hcalcs.1.read Value.Alike.toTuple_eq fun row? => ?_
    cases row? with
    | none => exact evaluateElements_follows hl hcalcs.2
    | some row => exact (hl.push row).bind fun l l' hl => evaluateElements_follows hl hcalcs.2

/-! ### Sets under two limits -/

namespace Calc

theorem setLiteral_follows (hle : config.limit ≤ config'.limit) {elements : List Calc}
    {first : Calc} (hfirst : elements.head? = some first) (hslots : reservable elements = true)
    (helements : ∀ c ∈ elements,
      Follows Value.Alike (c.evaluate ctx) ((configured config' c).evaluate ctx)) :
    Follows Value.Alike (evaluate ctx (.setLiteral elements config.limit))
      ((configured config' (.setLiteral elements config.limit)).evaluate ctx) := by
  have hcount : elements.length * max (max first.type.arity 1) 1 < Packed.slotBound := by
    obtain ⟨rest, rfl⟩ : ∃ rest, elements = first :: rest := by
      cases elements <;> simp_all
    rw [Nat.max_eq_left (Nat.le_max_right _ 1)]
    exact of_decide_eq_true hslots
  rw [Calc.configured, evaluate, evaluate, configuredAll_eq_map, List.head?_map, List.length_map]
  simp only [hfirst, Option.map_some, Option.getD_some, type_configured]
  refine (TupleList.withCapacity_follows hcount hle).bind fun empty empty' hempty => ?_
  rw [← configuredAll_eq_map]
  exact (evaluateElements_follows hempty helements).bind fun l l' hl => .ok (.list hl)

theorem crossJoin_follows (hle : config.limit ≤ config'.limit) {left right : Calc}
    (hleft : Follows Value.Alike (left.evaluate ctx) ((configured config' left).evaluate ctx))
    (hright : Follows Value.Alike (right.evaluate ctx) ((configured config' right).evaluate ctx)) :
    Follows Value.Alike (evaluate ctx (.crossJoin left right config.limit))
      ((configured config' (.crossJoin left right config.limit)).evaluate ctx) := by
  rw [Calc.configured, evaluate, evaluate]
  refine hleft.bind fun v v' hv => hv.toList.bind fun l l' hl => ?_
  refine hright.bind fun w w' hw => hw.toList.bind fun m m' hm => ?_
  split
  · refine (nonEmptyProduct_follows hl hm hle ctx).bind fun kept kept' hkept => ?_
    exact .ok (.iterable (.list hkept.fixed))
  · rw [productLength, productLength, hl.length_eq, hm.length_eq]
    exact (RowLimit.follows_check hle _).bind fun _ _ _ => .ok (.iterable (.product hl hm))

section Iterated

variable {set : Calc}

theorem filter_follows (hle : config.limit ≤ config'.limit)
    (hswitch : config'.simplifyContext = config.simplifyContext) {condition : Calc}
    (hset : ∀ here, Follows Value.Alike (set.evaluate here)
      ((configured config' set).evaluate here))
    (hcondition : ∀ here, Follows Value.Alike (condition.evaluate here)
      ((configured config' condition).evaluate here)) :
    Follows Value.Alike
      (evaluate ctx (.filter set condition config.limit config.simplifyContext))
      ((configured config' (.filter set condition config.limit config.simplifyContext)).evaluate
        ctx) := by
  rw [Calc.configured, evaluate, evaluate, hswitch, contextFor_configured]
  refine .bind_self _ fun here => (hset here).bind fun v v' hv => ?_
  refine hv.toSource.bind fun source source' hsource => ?_
  rw [hsource.arity_eq]
  refine (hsource.walk ctx (TupleList.new_alike _ hle) fun kept kept' row inner hkept => ?_).bind
    fun kept kept' hkept => .ok (.list hkept)
  refine (hcondition inner).read Value.Alike.toBoolean_eq fun isKept => ?_
  cases isKept with
  | true => exact hsource.wholeRow_eq row ▸ hkept.store _ _
  | false => exact .ok hkept

theorem order_follows (hswitch : config'.simplifyContext = config.simplifyContext) {key : Calc}
    {descending : Bool}
    (hset : ∀ here, Follows Value.Alike (set.evaluate here)
      ((configured config' set).evaluate here))
    (hkey : ∀ here, Follows Value.Alike (key.evaluate here)
      ((configured config' key).evaluate here)) :
    Follows Value.Alike (evaluate ctx (.order set key descending config.simplifyContext))
      ((configured config' (.order set key descending config.simplifyContext)).evaluate ctx) := by
  rw [Calc.configured, evaluate, evaluate, hswitch, contextFor_configured]
  refine .bind_self _ fun here => (hset here).bind fun v v' hv => ?_
  refine hv.toList.bind fun l l' hl => ?_
  rw [hl.arity_eq]
  refine ((TupleSource.Alike.list hl).walk ctx (R := Eq) rfl fun keys _ row inner heq => ?_).bind
    fun keys _ heq => ?_
  · subst heq
    refine (hkey inner).read Value.Alike.toNumber_eq fun key => ?_
    exact .refl (fun _ => rfl) _
  · subst heq
    exact (hl.copy.sortBy _).bind fun sorted sorted' hsorted => .ok (.list hsorted)

theorem aggregate_follows (hswitch : config'.simplifyContext = config.simplifyContext)
    {value : Calc} {function : AggregateFunction}
    (hset : ∀ here, Follows Value.Alike (set.evaluate here)
      ((configured config' set).evaluate here))
    (hvalue : ∀ here, Follows Value.Alike (value.evaluate here)
      ((configured config' value).evaluate here)) :
    Follows Value.Alike (evaluate ctx (.aggregate set value function config.simplifyContext))
      ((configured config' (.aggregate set value function config.simplifyContext)).evaluate
        ctx) := by
  rw [Calc.configured, evaluate, evaluate, hswitch, contextFor_configured]
  refine .bind_self _ fun here => (hset here).bind fun v v' hv => ?_
  refine hv.toSource.bind fun source source' hsource => ?_
  refine (hsource.walk ctx (R := Eq) rfl fun statistics _ row inner heq => ?_).bind
    fun statistics _ heq => ?_
  · subst heq
    exact (hvalue inner).bind fun w w' hw => hw.observation_eq ▸ .ok rfl
  · exact heq ▸ .ok (.same _)

end Iterated

end Calc

/-! ### Calcs under two limits -/

/-- Under a wider limit a compiled calc evaluates to what it evaluates to under a narrower one. -/
theorem Calc.evaluate_follows (hle : config.limit ≤ config'.limit)
    (hswitch : config'.simplifyContext = config.simplifyContext) (hc : c.Formed cube config)
    (hslots : c.everySet reservable = true) (ctx : Context) :
    Follows Value.Alike (c.evaluate ctx) ((configured config' c).evaluate ctx) := by
  induction hc generalizing ctx with
  | constant value | currentValue | currentMember _ | memberLiteral _ _ =>
    exact .refl Value.Alike.same _
  | memberValue hmembers htypes ih =>
    rw [Calc.configured, evaluate, evaluate]
    refine (evaluateMembers_follows fun c hc => ih c hc (everySet_child hslots hc) ctx).bind ?_
    rintro members? _ rfl
    exact .refl Value.Alike.same _
  | tupleLiteral hmembers htypes ih =>
    rw [Calc.configured, evaluate, evaluate]
    refine (evaluateMembers_follows fun c hc => ih c hc (everySet_child hslots hc) ctx).bind ?_
    rintro members? _ rfl
    exact .ok (.same _)
  | tupleValue htuple htype ih =>
    rw [Calc.configured, evaluate, evaluate]
    refine (ih (everySet_child hslots (List.mem_singleton_self _)) ctx).read
      Value.Alike.toTuple_eq fun row? => ?_
    exact .refl Value.Alike.same _
  | memberName _ _ ih | memberParent _ _ ih | memberLevel _ _ ih | memberHierarchy _ _ ih =>
    rw [Calc.configured, evaluate, evaluate]
    exact (ih (everySet_child hslots (List.mem_singleton_self _)) ctx).read
      Value.Alike.toMember_eq fun m? => .ok (.same _)
  | hierarchyMembers hh | levelMembers hh =>
    rw [Calc.configured, evaluate, evaluate]
    exact (TupleList.ofMembers_follows _ hle).bind fun l l' hl => .ok (.list hl.fixed)
  | memberChildren hmember htype ih =>
    rw [Calc.configured, evaluate, evaluate]
    refine (ih (everySet_child hslots (List.mem_singleton_self _)) ctx).read
      Value.Alike.toMember_eq fun m? => ?_
    cases m? with
    | none => exact .ok (.list (TupleList.new_alike 1 hle))
    | some m => exact (TupleList.ofMembers_follows _ hle).bind fun l l' hl => .ok (.list hl)
  | setLiteral hfirst _ _ _ ih =>
    exact setLiteral_follows hle hfirst (everySet_own hslots) fun c hc =>
      ih c hc (everySet_child hslots hc) ctx
  | crossJoin _ _ _ _ _ _ ihleft ihright =>
    exact crossJoin_follows hle (ihleft (everySet_child hslots List.mem_cons_self) ctx)
      (ihright (everySet_child hslots (by simp [Calc.children])) ctx)
  | filter _ _ _ _ ihset ihcondition =>
    exact filter_follows hle hswitch (ihset (everySet_child hslots List.mem_cons_self))
      (ihcondition (everySet_child hslots (by simp [Calc.children])))
  | order _ _ _ _ _ descending ihset ihkey =>
    exact order_follows hswitch (ihset (everySet_child hslots List.mem_cons_self))
      (ihkey (everySet_child hslots (by simp [Calc.children])))
  | aggregate _ _ _ _ function ihset ihvalue =>
    exact aggregate_follows hswitch (ihset (everySet_child hslots List.mem_cons_self))
      (ihvalue (everySet_child hslots (by simp [Calc.children])))
  | walkCount _ _ ihset =>
    rw [Calc.configured, evaluate, evaluate, hswitch, contextFor_configured]
    refine .bind_self _ fun here => ?_
    refine (ihset (everySet_child hslots (List.mem_singleton_self _)) here).bind fun v v' hv => ?_
    refine hv.toSource.bind fun source source' hsource => ?_
    have hreach : source.reach = source'.reach := funext hsource.reach_eq
    rw [TupleSource.count_eq, TupleSource.count_eq, hsource.tuples_eq, hreach]
    exact .bind_self _ fun _ => .ok (.same _)
  | listCount _ _ _ ihset =>
    rw [Calc.configured, evaluate, evaluate]
    refine (ihset (everySet_child hslots (List.mem_singleton_self _)) ctx).bind fun v v' hv => ?_
    refine hv.toList.bind fun l l' hl => ?_
    exact hl.length_eq ▸ .ok (.same _)
  | arithmetic _ _ _ _ _ ihleft ihright | comparison _ _ _ _ _ ihleft ihright =>
    rw [Calc.configured, evaluate, evaluate]
    refine (ihleft (everySet_child hslots List.mem_cons_self) ctx).read Value.Alike.toNumber_eq
      fun x => ?_
    exact (ihright (everySet_child hslots (by simp [Calc.children])) ctx).read
      Value.Alike.toNumber_eq fun y => .ok (.same _)
  | and _ _ _ _ ihleft ihright =>
    rw [Calc.configured, evaluate, evaluate]
    refine (ihleft (everySet_child hslots List.mem_cons_self) ctx).read Value.Alike.toBoolean_eq
      fun b => ?_
    cases b with
    | true =>
      exact (ihright (everySet_child hslots (by simp [Calc.children])) ctx).read
        Value.Alike.toBoolean_eq fun b => .ok (.same _)
    | false => exact .ok (.same _)
  | or _ _ _ _ ihleft ihright =>
    rw [Calc.configured, evaluate, evaluate]
    refine (ihleft (everySet_child hslots List.mem_cons_self) ctx).read Value.Alike.toBoolean_eq
      fun b => ?_
    cases b with
    | true => exact .ok (.same _)
    | false =>
      exact (ihright (everySet_child hslots (by simp [Calc.children])) ctx).read
        Value.Alike.toBoolean_eq fun b => .ok (.same _)
  | not _ _ ih =>
    rw [Calc.configured, evaluate, evaluate]
    exact (ih (everySet_child hslots (List.mem_singleton_self _)) ctx).read
      Value.Alike.toBoolean_eq fun b => .ok (.same _)
  | iif _ _ _ _ _ _ ihcondition ihthen ihelse =>
    rw [Calc.configured, evaluate, evaluate]
    refine (ihcondition (everySet_child hslots List.mem_cons_self) ctx).read
      Value.Alike.toBoolean_eq fun b => ?_
    cases b with
    | true => exact ihthen (everySet_child hslots (by simp [Calc.children])) ctx
    | false => exact ihelse (everySet_child hslots (by simp [Calc.children])) ctx
  | @packedList c style _ _ _ ih =>
    rw [Calc.configured, evaluate, evaluate]
    refine (ih (everySet_child hslots (List.mem_singleton_self _)) ctx).bind fun v v' hv => ?_
    refine hv.toSource.bind fun source source' hsource => ?_
    refine (hsource.materialize hle).bind fun packed packed' hpacked => ?_
    split
    · exact .ok (.list hpacked.fixed)
    · exact .ok (.list hpacked)
  | copiedList _ _ _ ih =>
    rw [Calc.configured, evaluate, evaluate]
    refine (ih (everySet_child hslots (List.mem_singleton_self _)) ctx).bind fun v v' hv => ?_
    exact hv.toList.bind fun l l' hl => .ok (.list hl.copy)
  | effect _ ih =>
    rw [Calc.configured, evaluate, evaluate, style_configured]
    refine (ih (everySet_child hslots (List.mem_singleton_self _)) ctx).bind fun v v' hv => ?_
    split
    · exact hv.toSource.bind fun _ _ _ => .ok (.same _)
    · exact .ok (.same _)

/-! ### One limit -/

/-- Where a failure reports a limit, it is this one, and it was exceeded. -/
def Failure.Reports (limit : RowLimit) (failure : Failure) : Prop :=
  ∀ attempted most, failure = .error (.limitExceeded attempted most) →
    limit.rows? = some most ∧ most < attempted

theorem Failure.reports_violation (limit : RowLimit) (cause : Violation) :
    (Failure.violation cause).Reports limit := by
  intro attempted most h
  cases h

namespace Context

variable {limit : RowLimit}

theorem meets_member (ctx : Context) (h : Hierarchy) :
    Meets (fun _ => True) (Failure.Reports limit) (ctx.member h) := by
  rw [member]
  split
  · exact Failure.reports_violation _ _
  · split
    · trivial
    · exact Failure.reports_violation _ _

theorem meets_move (ctx : Context) (m : Member) :
    Meets (fun _ => True) (Failure.Reports limit) (ctx.move m) := by
  rw [move]
  split
  · exact Failure.reports_violation _ _
  · split
    · trivial
    · exact Failure.reports_violation _ _

theorem meets_contextFor (c : Calc) (simplify : Bool) (ctx : Context) :
    Meets (fun _ => True) (Failure.Reports limit) (c.contextFor simplify ctx) := by
  rw [contextFor]
  split
  · refine Meets.bind (P := fun _ => True) ?_ fun _ _ => trivial
    rw [simplify?]
    split
    · trivial
    · refine meets_foldlM trivial fun simplified? h _ _ => ?_
      refine (show Meets (fun _ => True) _ (c.resets ctx h) from
        (ctx.meets_member h).bind fun _ _ => trivial).bind fun isReset _ => ?_
      split
      · exact (meets_move _ _).bind fun _ _ => trivial
      · trivial
  · trivial

end Context

/-- Any context and any member will do, so that nothing but the limit is kept an eye on. -/
def Regime.any (cube : Cube) (limit : RowLimit) : Regime cube limit where
  stands _ := True
  belongs _ _ := True
  allows := Failure.Reports limit
  own _ _ := trivial
  parent _ _ _ := trivial
  child _ _ _ _ := trivial
  current _ _ := Context.meets_member _ _
  moveAll _ _ _ := meets_foldlM trivial fun _ _ _ _ => Context.meets_move _ _
  contextFor c simplify _ := Context.meets_contextFor c simplify _
  exceeded hmost hlt := by
    rintro _ _ ⟨⟩
    exact ⟨hmost, hlt⟩
  notNumber _ := by
    intro _ _ h
    cases h
  notBoolean := by
    intro _ _ h
    cases h

theorem Regime.suits_any (c : Calc) : (Regime.any cube config.limit).Suits c where
  uniform := .inr fun _ _ _ _ => trivial
  reservable := .inr (Failure.reports_violation _ _)
  hasMembers := .inr fun _ _ h => by cases h

/-- The members that the limit leaves room for, or else those that a list has, can be counted in a
word, as all members in memory can. -/
def TupleSource.IsCountable (limit : RowLimit) : TupleSource → Prop
  | .list l => limit.clamp l.rows.length * l.arity < wordBound
  | _ => True

/-- A source within a regime has no more tuples than the limit allows. -/
theorem Regime.Sources.length_le {limit : RowLimit} {r : Regime cube limit} {hs : List Hierarchy}
    {source : TupleSource} (hsource : r.Sources hs source) (hcount : source.IsCountable limit)
    {most : Nat} (hmost : limit.rows? = some most) (hword : most < wordBound - 1) :
    source.tuples.length ≤ most := by
  cases source with
  | list l =>
    have hl : r.Lists hs l := hsource
    rw [TupleSource.IsCountable, hl.arity_eq] at hcount
    exact hl.allows hcount most hmost
  | product left right =>
    obtain ⟨hsLeft, hsRight, -, hleft, hright, hallows⟩ := hsource
    have hle := hallows most hmost
    have hlength : (productRows left right).length = left.length * right.length := by
      simp [productRows, List.length_flatMap, hleft.length_eq, hright.length_eq]
    rw [TupleSource.tuples, hlength]
    rw [productLength, saturated] at hle
    omega
  | rows arity tuples => exact hsource.elim

/-- Only what has the type of a set is read as a source. -/
theorem Regime.Fits.isSet_of_toSource {r : Regime cube config.limit} {style : ResultStyle}
    {v : Value} {type : StaticType} {source : TupleSource} (hv : r.Fits style v type)
    (hsource : v.toSource = .ok source) : type.isSet = true := by
  cases v <;> cases hsource
  all_goals cases type <;> first | rfl | simp [Regime.Fits, Value.isScalar] at hv

theorem Calc.meets_reports (hc : c.Formed cube config) (ctx : Context) :
    Meets ((Regime.any cube config.limit).Yields c) (Failure.Reports config.limit)
      (c.evaluate ctx) :=
  Regime.meets_evaluate hc (Regime.suits_any c) trivial

theorem Calc.length_tuples_le (hc : c.Formed cube config) (hpos : 0 < config.resultLimit)
    (hword : config.resultLimit ≤ Int64.maxValue.toInt) {v : Value} {source : TupleSource}
    (hv : c.evaluate ctx = .ok v) (hsource : v.toSource = .ok source)
    (hcount : source.IsCountable config.limit) : source.tuples.length ≤ config.resultLimit := by
  have hfits : (Regime.any cube config.limit).Fits c.style v c.type :=
    (meets_reports hc ctx).of_ok hv
  have hrows := (hfits.toSource (hfits.isSet_of_toSource hsource)).of_ok hsource
  have hmost : config.limit.rows? = some config.resultLimit.toNat := by
    simp [CalcConfig.limit, RowLimit.ofInt, Int.not_le.mpr hpos]
  have hless : config.resultLimit.toNat < wordBound - 1 := by
    have hmax : Int64.maxValue.toInt = 9223372036854775807 := rfl
    rw [wordBound, UInt64.size]
    omega
  have hle := hrows.length_le hcount hmost hless
  omega

/-- A limit that is reported is the limit, and it was exceeded. -/
theorem Calc.limit_eq_of_limitExceeded (hc : c.Formed cube config) {attempted most : Nat}
    (hfail : c.evaluate ctx = fail (.limitExceeded attempted most)) :
    most = config.resultLimit ∧ most < attempted := by
  obtain ⟨hmost, hlt⟩ := (meets_reports hc ctx).of_error hfail attempted most rfl
  refine ⟨?_, hlt⟩
  rw [CalcConfig.limit, RowLimit.ofInt] at hmost
  split at hmost
  · simp [RowLimit.unbounded] at hmost
  · rw [Option.some.injEq] at hmost
    omega

/-! ### All requests -/

/-- The limit bounds every set, is reported only where it was exceeded, and does nothing else: a
wider limit comes to the same, unless the narrower one was exceeded. All that is asked for is that
members fit into memory: those of a set can be counted in a word, and those of the elements of a set
literal can be given slots. -/
theorem Compiler.rowLimit_sound {exp : Exp} {request : Compiler.Request}
    (hcompile : (Compiler.mk cube config).answer exp request = .ok c) :
    (∀ (ctx : Context) (v : Value) (source : TupleSource), 0 < config.resultLimit →
      config.resultLimit ≤ Int64.maxValue.toInt → c.evaluate ctx = .ok v → v.toSource = .ok source →
      source.IsCountable config.limit → source.tuples.length ≤ config.resultLimit) ∧
    (∀ (ctx : Context) (attempted most : Nat),
      c.evaluate ctx = fail (.limitExceeded attempted most) →
      most = config.resultLimit ∧ most < attempted) ∧
    ∀ config' : CalcConfig, config'.simplifyContext = config.simplifyContext →
      config'.resultLimit ≤ 0 ∨ 0 < config.resultLimit ∧ config.resultLimit ≤ config'.resultLimit →
      c.everySet reservable = true →
      ∃ other, (Compiler.mk cube config').answer exp request = .ok other ∧
        ∀ ctx, Follows Value.Alike (c.evaluate ctx) (other.evaluate ctx) := by
  have hc : c.Formed cube config :=
    ((Compiler.mk cube config).meets_answer exp request).of_ok hcompile
  refine ⟨fun ctx v source hpos hword hv hsource hcount => ?_, fun ctx attempted most hfail => ?_,
    fun config' hswitch hle hslots => ?_⟩
  · exact length_tuples_le hc hpos hword hv hsource hcount
  · exact limit_eq_of_limitExceeded hc hfail
  · refine ⟨configured config' c, ?_, fun ctx => ?_⟩
    · exact (Compiler.answer_configured request).trans (congrArg _ hcompile)
    · exact evaluate_follows (RowLimit.ofInt_le_ofInt hle) hswitch hc hslots ctx

namespace Sales

def years : TupleList := ⟨.unary time.members.toArray, true, .ofInt 3⟩

def yearsCalc : Calc := .copiedList (.hierarchyMembers time (.ofInt 3))

theorem length_years_le : years.rows.length ≤ (3 : Int) ∧
    ∃ other, (Compiler.mk .sales {}).answer (.members "Time") (.list true) = .ok other ∧
      Follows Value.Alike (yearsCalc.evaluate start) (other.evaluate start) := by
  have hcompile : (Compiler.mk .sales ⟨3, true⟩).answer (.members "Time") (.list true) =
      .ok yearsCalc := rfl
  obtain ⟨hbound, -, hwider⟩ := Compiler.rowLimit_sound hcompile
  obtain ⟨other, hother, hfollows⟩ := hwider {} rfl (.inl (by decide)) rfl
  have hcount : (TupleSource.list years).IsCountable (.ofInt 3) := by
    change 3 * 1 < wordBound
    decide
  exact ⟨hbound start (.list years) (.list years) (by decide) (by decide) rfl rfl hcount, other,
    hother, hfollows start⟩

end Sales

end CubeCalc
