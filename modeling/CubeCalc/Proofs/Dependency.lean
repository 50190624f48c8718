import CubeCalc.Proofs.Standing
/-!
# Dependencies are sound

Two contexts that agree on the hierarchies a compiled calc depends on give it one value. Its rule
says what its children may depend on beyond that: hierarchies that each tuple of a set overrides,
and those that the members of a cell override. For these the type promises that no tuple leaves them
out.
-/

namespace CubeCalc

open Outcome Context

variable {cube : Cube} {config : CalcConfig} {c child : Calc} {h : Hierarchy}

/-! ### What a rule leaves to the children -/

namespace Calc

theorem anyDepends_iff {calcs : List Calc} :
    DependencyRule.anyDepends (dependences h calcs) = true ↔ ∃ c ∈ calcs, c.dependsOn h = true := by
  simp [DependencyRule.anyDepends, dependences]

theorem dependsOn_of_child (hrule : c.rule = .children ∨ c.rule = .butDepends)
    (hchild : child ∈ c.children) (hdepends : child.dependsOn h = true) :
    c.dependsOn h = true := by
  have hany : DependencyRule.anyDepends (dependences h c.children) = true :=
    anyDepends_iff.mpr ⟨child, hchild, hdepends⟩
  rw [dependsOn_eq]
  rcases hrule with hrule | hrule
  · rw [hrule, DependencyRule.dependsOn, hany]
  · rw [hrule, DependencyRule.dependsOn, DependencyRule.butDependsOn, hany, Bool.true_or]

/-- A hierarchy that a cell does not depend on is spanned by one of the cell's members. -/
theorem dependsOn_or_spanned (hrule : c.rule = .butDepends) (h : Hierarchy) :
    c.dependsOn h = true ∨ ∃ child ∈ c.children, child.type.usesHierarchy h true = true := by
  rw [dependsOn_eq, hrule, DependencyRule.dependsOn, DependencyRule.butDependsOn]
  by_cases hspanned : ∃ child ∈ c.children, child.type.usesHierarchy h true = true
  · exact .inr hspanned
  · left
    have hnone : (dependences h c.children).any (fun d => d.type.usesHierarchy h true) = false := by
      simpa [dependences] using hspanned
    rw [hnone, Bool.not_false, Bool.or_true]

variable {first : Calc} {rest : List Calc}

theorem dependsOn_of_first (hrule : c.rule = .butFirst) (hchildren : c.children = first :: rest)
    (hdepends : first.dependsOn h = true) : c.dependsOn h = true := by
  rw [dependsOn_eq, hrule, hchildren]
  simp [DependencyRule.dependsOn, dependences, DependencyRule.anyDependsButFirst, hdepends]

/-- What is evaluated for each tuple of a set depends on what the set does not span. -/
theorem dependsOn_or_spans (hrule : c.rule = .butFirst) (hchildren : c.children = first :: rest)
    (hchild : child ∈ rest) (hdepends : child.dependsOn h = true) :
    c.dependsOn h = true ∨ first.type.usesHierarchy h true = true := by
  have hany : DependencyRule.anyDepends (dependences h rest) = true :=
    anyDepends_iff.mpr ⟨child, hchild, hdepends⟩
  rw [dependsOn_eq, hrule, hchildren]
  cases hspans : first.type.usesHierarchy h true with
  | true => exact .inr rfl
  | false =>
    left
    have hcons : dependences h (first :: rest) =
        ⟨first.dependsOn h, first.type⟩ :: dependences h rest := rfl
    simp [hcons, DependencyRule.dependsOn, DependencyRule.anyDependsButFirst, hspans, hany]

end Calc

variable {ctx₁ ctx₂ : Context} {p : Hierarchy → Prop}

/-! ### Children that are evaluated alike -/

theorem evaluateMembers_congr {calcs : List Calc}
    (hcalcs : ∀ c ∈ calcs, c.evaluate ctx₁ = c.evaluate ctx₂) :
    Calc.evaluateMembers ctx₁ calcs = Calc.evaluateMembers ctx₂ calcs := by
  induction calcs with
  | nil => rfl
  | cons c rest ih =>
    rw [List.forall_mem_cons] at hcalcs
    rw [Calc.evaluateMembers, Calc.evaluateMembers, hcalcs.1, ih hcalcs.2]

theorem evaluateElements_congr {calcs : List Calc}
    (hcalcs : ∀ c ∈ calcs, c.evaluate ctx₁ = c.evaluate ctx₂) (l : TupleList) :
    Calc.evaluateElements ctx₁ l calcs = Calc.evaluateElements ctx₂ l calcs := by
  induction calcs generalizing l with
  | nil => rfl
  | cons c rest ih =>
    rw [List.forall_mem_cons] at hcalcs
    rw [Calc.evaluateElements, Calc.evaluateElements, hcalcs.1]
    simp only [ih hcalcs.2]

theorem Calc.evaluate_eq_of_never (hrule : c.rule = .never) (ctx₁ ctx₂ : Context) :
    c.evaluate ctx₁ = c.evaluate ctx₂ := by
  cases c with
  | constant | memberLiteral | hierarchyMembers | levelMembers | custom =>
    rw [Calc.evaluate, Calc.evaluate]
  | _ => cases hrule

/-- A calc that depends on what its children depend on looks at a context through them. -/
theorem Calc.evaluate_congr (hrule : c.rule = .children) (hcube : ctx₁.cube = ctx₂.cube)
    (hempty₁ : ctx₁.nonEmpty = false) (hempty₂ : ctx₂.nonEmpty = false)
    (hchildren : ∀ child ∈ c.children, child.evaluate ctx₁ = child.evaluate ctx₂) :
    c.evaluate ctx₁ = c.evaluate ctx₂ := by
  cases c with
  | tupleLiteral members =>
    have hsame : ∀ c ∈ members, c.evaluate ctx₁ = c.evaluate ctx₂ := hchildren
    rw [Calc.evaluate, Calc.evaluate, evaluateMembers_congr hsame]
  | setLiteral elements limit =>
    have hsame : ∀ c ∈ elements, c.evaluate ctx₁ = c.evaluate ctx₂ := hchildren
    rw [Calc.evaluate, Calc.evaluate]
    simp only [evaluateElements_congr hsame]
  | memberName child | memberParent child | not child | packedList child | copiedList child
  | effect child =>
    rw [Calc.evaluate, Calc.evaluate, hchildren child (List.mem_singleton_self _)]
  | memberLevel child | memberHierarchy child =>
    rw [Calc.evaluate, Calc.evaluate, hchildren child (List.mem_singleton_self _), hcube]
  | memberChildren child limit =>
    have hbelow : ∀ m, ctx₁.childrenOf m = ctx₂.childrenOf m := fun m => by
      rw [childrenOf, childrenOf, hcube]
    rw [Calc.evaluate, Calc.evaluate, hchildren child (List.mem_singleton_self _)]
    simp only [hbelow]
  | crossJoin left right limit =>
    rw [Calc.evaluate, Calc.evaluate, hempty₁, hempty₂, hchildren left List.mem_cons_self,
      hchildren right (by simp [Calc.children])]
    rfl
  | arithmetic op left right | comparison op left right | and left right | or left right =>
    rw [Calc.evaluate, Calc.evaluate, hchildren left List.mem_cons_self,
      hchildren right (by simp [Calc.children])]
  | iif condition thenCalc elseCalc =>
    rw [Calc.evaluate, Calc.evaluate, hchildren condition List.mem_cons_self,
      hchildren thenCalc (by simp [Calc.children]), hchildren elseCalc (by simp [Calc.children])]
  | custom => rw [Calc.evaluate, Calc.evaluate]
  | _ => cases hrule

/-! ### Two runs side by side -/

/-- A cell is the same where the contexts agree on all that the members leave open. -/
theorem valueAt_congr (hcube : cube.IsSound) (h₁ : ctx₁.Stands cube) (h₂ : ctx₂.Stands cube)
    (hagree : AgreesOn p ctx₁ ctx₂) {row : Tuple} (hrow : cube.Holds row)
    (hall : ∀ h ∈ cube.hierarchies, p h ∨ ∃ m ∈ row, m ∈ h.members) :
    ctx₁.valueAt row = ctx₂.valueAt row := by
  obtain ⟨moved₁, moved₂, hmove₁, hmove₂, hstands₁, hstands₂, hmoved⟩ :=
    moveAll_agreesOn hcube hagree h₁ h₂ hrow
  rw [Context.valueAt, Context.valueAt, hmove₁, hmove₂,
    hmoved.eq_of_forall hstands₁ hstands₂ hall]

/-- A walk enters the first row, visits it, and goes on from there. -/
theorem walk_rows_cons {β : Type} {arity : Nat} {row : Tuple} (hrow : row.length = arity)
    (rest : List Tuple) (ctx : Context) (start : β)
    (visit : β → Tuple → Context → Outcome β) :
    (TupleSource.rows arity (row :: rest)).walk ctx start visit =
      ctx.moveAll row >>= fun here => visit start row here >>= fun next =>
        (TupleSource.rows arity rest).walk here next visit := by
  have hreach : (TupleSource.rows arity (row :: rest)).reach row = .ok () :=
    TupleSource.reach_eq hrow
  rw [TupleSource.walk, TupleSource.tuples, List.foldlM_cons, bind_assoc]
  simp only [hreach, Outcome.ok_bind]
  rw [bind_assoc, ← Regime.enter_eq ctx hrow]
  refine Outcome.bind_congr fun here _ => ?_
  rw [bind_assoc]
  rfl

/-- Rows as long as their source declares are walked in one way, whatever the source. -/
theorem walk_eq_walk_rows {β : Type} {source : TupleSource}
    (hrows : ∀ row ∈ source.tuples, row.length = source.arity) (ctx : Context) (start : β)
    (visit : β → Tuple → Context → Outcome β) :
    source.walk ctx start visit =
      (TupleSource.rows source.arity source.tuples).walk ctx start visit := by
  have hreach : ∀ row ∈ source.tuples,
      source.reach row = (TupleSource.rows source.arity source.tuples).reach row := by
    intro row hrow
    have hlength : row.length = (TupleSource.rows source.arity source.tuples).arity :=
      hrows row hrow
    rw [TupleSource.reach_eq (hrows row hrow), TupleSource.reach_eq hlength]
  rw [TupleSource.walk, TupleSource.walk]
  refine congrArg (· >>= _) (Outcome.foldlM_congr _ ?_)
  rintro row hrow ⟨result, here⟩
  simp only [hreach row hrow]
  rfl

/-- Walks of one source give one result if each visit does, in contexts that agree on what they
agreed on before and on all hierarchies of the source. -/
theorem walk_congr {β : Type} {limit : RowLimit} (hcube : cube.IsSound) {hs : List Hierarchy}
    {source : TupleSource} (hsource : (Regime.sound hcube limit).Sources hs source)
    (hhs : ∀ h ∈ hs, h ∈ cube.hierarchies) (h₁ : ctx₁.Stands cube) (h₂ : ctx₂.Stands cube)
    (hagree : AgreesOn p ctx₁ ctx₂) {start : β} {visit₁ visit₂ : β → Tuple → Context → Outcome β}
    (hvisit : ∀ result row here₁ here₂, row ∈ source.tuples → here₁.Stands cube →
      here₂.Stands cube → here₁.nonEmpty = ctx₁.nonEmpty →
        AgreesOn (fun h => p h ∨ h ∈ hs) here₁ here₂ →
          visit₁ result row here₁ = visit₂ result row here₂) :
    source.walk ctx₁ start visit₁ = source.walk ctx₂ start visit₂ := by
  have hrows : ∀ rows : List Tuple, (∀ row ∈ rows, row ∈ source.tuples) →
      ∀ result here₁ here₂, here₁.Stands cube → here₂.Stands cube →
        here₁.nonEmpty = ctx₁.nonEmpty → AgreesOn p here₁ here₂ →
          (TupleSource.rows source.arity rows).walk here₁ result visit₁ =
            (TupleSource.rows source.arity rows).walk here₂ result visit₂ := by
    intro rows
    induction rows with
    | nil =>
      intro _ result here₁ here₂ _ _ _ _
      rfl
    | cons row rest ih =>
      intro hmem result here₁ here₂ hstands₁ hstands₂ hempty hhere
      rw [List.forall_mem_cons] at hmem
      have hbelong := hsource.rows_belong row hmem.1
      have hlength : row.length = source.arity := by rw [hsource.arity_eq, hbelong.length_eq]
      obtain ⟨moved₁, moved₂, hmove₁, hmove₂, hin₁, hin₂, hmoved⟩ :=
        moveAll_agreesOn hcube hhere hstands₁ hstands₂ (Cube.holds_of_forall₂ hbelong hhs)
      have hspanned : AgreesOn (fun h => p h ∨ h ∈ hs) moved₁ moved₂ :=
        hmoved.mono fun h _ hh => hh.imp_right fun hmem => exists_mem_of_forall₂ hbelong hmem
      have hempty' : moved₁.nonEmpty = ctx₁.nonEmpty := (nonEmpty_of_moveAll hmove₁).trans hempty
      rw [walk_rows_cons hlength, walk_rows_cons hlength, hmove₁, hmove₂, Outcome.ok_bind,
        Outcome.ok_bind, hvisit result row moved₁ moved₂ hmem.1 hin₁ hin₂ hempty' hspanned]
      refine Outcome.bind_congr fun next _ => ?_
      exact ih hmem.2 next moved₁ moved₂ hin₁ hin₂ hempty' (hspanned.mono fun _ _ => .inl)
  have hlengths : ∀ row ∈ source.tuples, row.length = source.arity := fun _ => hsource.length_eq
  rw [walk_eq_walk_rows hlengths, walk_eq_walk_rows hlengths]
  exact hrows source.tuples (fun _ h => h) start ctx₁ ctx₂ h₁ h₂ rfl hagree

/-- A calc is determined if what it depends on decides its value, as long as empty cells are not
left out. -/
def Calc.IsDetermined (cube : Cube) (c : Calc) : Prop :=
  ∀ ctx₁ ctx₂ : Context, ctx₁.Stands cube → ctx₂.Stands cube → ctx₁.nonEmpty = false →
    AgreesOn (fun h => c.dependsOn h = true) ctx₁ ctx₂ → c.evaluate ctx₁ = c.evaluate ctx₂

/-- To simplify the context of such a calc changes nothing. -/
theorem Calc.IsDetermined.simplified (hc : c.IsDetermined cube) (hcube : cube.IsSound)
    (simplify : Bool) {ctx : Context} (hctx : ctx.Stands cube) :
    ∃ here : Context, c.contextFor simplify ctx = .ok here ∧ here.Stands cube ∧
      c.evaluate here = c.evaluate ctx := by
  obtain ⟨here, heq, hstands, hagree, hsame⟩ := contextFor_eq hcube c simplify hctx
  refine ⟨here, heq, hstands, ?_⟩
  cases hempty : ctx.nonEmpty with
  | true => rw [hsame hempty]
  | false => exact (hc _ _ hctx hstands hempty hagree).symm

/-- A child of a calc that depends on all that its children depend on is determined with it. -/
theorem Calc.IsDetermined.evaluate_child (hchild : child.IsDetermined cube)
    (hrule : c.rule = .children ∨ c.rule = .butDepends) (hmem : child ∈ c.children)
    (h₁ : ctx₁.Stands cube) (h₂ : ctx₂.Stands cube) (hempty : ctx₁.nonEmpty = false)
    (hagree : AgreesOn (fun h => c.dependsOn h = true) ctx₁ ctx₂) :
    child.evaluate ctx₁ = child.evaluate ctx₂ :=
  hchild _ _ h₁ h₂ hempty (hagree.mono fun _ _ hd => Calc.dependsOn_of_child hrule hmem hd)

section Iterated

variable {set : Calc} {rest : List Calc}

/-- A set gives two contexts the same tuples, simplified or not. -/
theorem Calc.IsDetermined.evaluate_set (hset : set.IsDetermined cube) (hcube : cube.IsSound)
    (hrule : c.rule = .butFirst) (hchildren : c.children = set :: rest) (simplify : Bool)
    (h₁ : ctx₁.Stands cube) (h₂ : ctx₂.Stands cube) (hempty : ctx₁.nonEmpty = false)
    (hagree : AgreesOn (fun h => c.dependsOn h = true) ctx₁ ctx₂) :
    ∃ here₁ here₂ : Context, set.contextFor simplify ctx₁ = .ok here₁ ∧
      set.contextFor simplify ctx₂ = .ok here₂ ∧ here₂.Stands cube ∧
        set.evaluate here₁ = set.evaluate here₂ := by
  obtain ⟨here₁, heq₁, -, hsame₁⟩ := hset.simplified hcube simplify h₁
  obtain ⟨here₂, heq₂, hstands, hsame₂⟩ := hset.simplified hcube simplify h₂
  refine ⟨here₁, here₂, heq₁, heq₂, hstands, ?_⟩
  rw [hsame₁, hsame₂]
  exact hset _ _ h₁ h₂ hempty
    (hagree.mono fun _ _ hd => Calc.dependsOn_of_first hrule hchildren hd)

/-- What is evaluated for each tuple of a set has one value in two contexts that are moved to the
tuple. -/
theorem Calc.IsDetermined.evaluate_rest (hchild : child.IsDetermined cube) (hcube : cube.IsSound)
    (hset : set.Formed cube config) (hsetType : set.type.isSet = true) (hrule : c.rule = .butFirst)
    (hchildren : c.children = set :: rest) (hmem : child ∈ rest) (h₁ : ctx₁.Stands cube)
    (h₂ : ctx₂.Stands cube) (hempty : ctx₁.nonEmpty = false)
    (hagree : AgreesOn (fun h => c.dependsOn h = true ∨ h ∈ set.type.spans) ctx₁ ctx₂) :
    child.evaluate ctx₁ = child.evaluate ctx₂ := by
  refine hchild _ _ h₁ h₂ hempty (hagree.mono fun h hh hd => ?_)
  have hcolumns : set.type.hasColumns = true := by simp [StaticType.hasColumns, hsetType]
  rw [h₁.cube_eq] at hh
  exact (Calc.dependsOn_or_spans hrule hchildren hmem hd).imp_right
    (hset.admits.usesHierarchy_iff hcube hcolumns true hh).mp

end Iterated

/-! ### Forms of calcs -/

namespace Calc.IsDetermined

theorem of_never (hrule : c.rule = .never) : c.IsDetermined cube :=
  fun ctx₁ ctx₂ _ _ _ _ => evaluate_eq_of_never hrule ctx₁ ctx₂

theorem of_children (hrule : c.rule = .children)
    (hchildren : ∀ child ∈ c.children, child.IsDetermined cube) : c.IsDetermined cube := by
  intro ctx₁ ctx₂ h₁ h₂ hempty hagree
  refine evaluate_congr hrule hagree.cube_eq hempty (hagree.nonEmpty_eq ▸ hempty) ?_
  intro child hmem
  exact (hchildren child hmem).evaluate_child (.inl hrule) hmem h₁ h₂ hempty hagree

theorem currentValue : Calc.currentValue.IsDetermined cube := by
  intro ctx₁ ctx₂ h₁ h₂ _ hagree
  rw [hagree.eq_of_forall h₁ h₂ fun h _ => rfl]

theorem currentMember (hcube : cube.IsSound) (hh : h ∈ cube.hierarchies) :
    (Calc.currentMember h).IsDetermined cube := by
  intro ctx₁ ctx₂ h₁ h₂ _ hagree
  have hown : (Calc.currentMember h).dependsOn h = true := Hierarchy.beq_iff_name_eq.mpr rfl
  rw [evaluate, evaluate, hagree.member_eq hcube h₁ hh hown]

theorem memberValue (hcube : cube.IsSound) {members : List Calc}
    (hformed : ∀ c ∈ members, c.Formed cube config) (htypes : ∀ c ∈ members, c.type.isMember = true)
    (huniform : (Calc.memberValue members).everySet uniform = true)
    (hmembers : ∀ c ∈ members, c.IsDetermined cube) :
    (Calc.memberValue members).IsDetermined cube := by
  intro ctx₁ ctx₂ h₁ h₂ hempty hagree
  have hadmits := (Formed.tupleLiteral hformed htypes).admits
  rw [type_tupleLiteral] at hadmits
  have hvalues := Regime.meets_evaluateMembers (r := .sound hcube config.limit)
    (fun c hc => Regime.meets_evaluate (hformed c hc)
      (Regime.suits_sound hcube (everySet_child huniform hc)) h₂) htypes
  rw [evaluate, evaluate, evaluateMembers_congr fun c hc =>
    (hmembers c hc).evaluate_child (c := .memberValue members) (.inr rfl) hc h₁ h₂ hempty hagree]
  refine Outcome.bind_congr fun row? hrow => ?_
  cases row? with
  | none => rfl
  | some row =>
    have hbelong := (hvalues.of_ok hrow).1 row rfl
    refine valueAt_congr hcube h₁ h₂ hagree
      (Cube.holds_of_forall₂ hbelong hadmits.spans_mem) fun h hh => ?_
    refine (dependsOn_or_spanned rfl h).imp_right fun hspanned => ?_
    obtain ⟨child, hchild, hspans⟩ := hspanned
    have hmember := htypes child hchild
    refine exists_mem_of_forall₂ hbelong (StaticType.mem_spans_tuple
      (List.mem_map_of_mem hchild) hmember ?_)
    exact ((hformed child hchild).admits.usesHierarchy_iff hcube
      (by simp [StaticType.hasColumns, hmember]) true hh).mp hspans

theorem tupleValue (hcube : cube.IsSound) {tuple : Calc} (hformed : tuple.Formed cube config)
    (htype : tuple.type.isTuple = true)
    (huniform : (Calc.tupleValue tuple).everySet uniform = true)
    (htuple : tuple.IsDetermined cube) : (Calc.tupleValue tuple).IsDetermined cube := by
  intro ctx₁ ctx₂ h₁ h₂ hempty hagree
  have hmem : tuple ∈ (Calc.tupleValue tuple).children := List.mem_singleton_self _
  have hvalue := Regime.meets_evaluate hformed
    (Regime.suits_sound hcube (everySet_child huniform hmem)) h₂
  have helement : (tuple.type.isMember || tuple.type.isTuple) = true := by
    rw [htype, Bool.or_true]
  rw [evaluate, evaluate, htuple.evaluate_child (.inr rfl) hmem h₁ h₂ hempty hagree]
  refine Outcome.bind_congr fun v hv => Outcome.bind_congr fun row? hrow => ?_
  cases row? with
  | none => rfl
  | some row =>
    have hbelong := ((Regime.Fits.toTuple (hvalue.of_ok hv) helement).of_ok hrow).1 row rfl
    refine valueAt_congr hcube h₁ h₂ hagree
      (Cube.holds_of_forall₂ hbelong hformed.admits.spans_mem) fun h hh => ?_
    refine (dependsOn_or_spanned rfl h).imp_right fun hspanned => ?_
    obtain ⟨child, hchild, hspans⟩ := hspanned
    rw [List.mem_singleton.mp hchild] at hspans
    refine exists_mem_of_forall₂ hbelong ?_
    exact (hformed.admits.usesHierarchy_iff hcube (by simp [StaticType.hasColumns, htype])
      true hh).mp hspans

section Iterated

variable {set : Calc} {simplify : Bool}

theorem filter (hcube : cube.IsSound) {condition : Calc} {limit : RowLimit}
    (hformed : set.Formed cube config) (htype : set.type.isSet = true)
    (huniform : set.everySet uniform = true) (hset : set.IsDetermined cube)
    (hcondition : condition.IsDetermined cube) :
    (Calc.filter set condition limit simplify).IsDetermined cube := by
  intro ctx₁ ctx₂ h₁ h₂ hempty hagree
  obtain ⟨here₁, here₂, heq₁, heq₂, hstands, hsame⟩ := hset.evaluate_set
    (c := .filter set condition limit simplify) hcube rfl rfl simplify h₁ h₂ hempty hagree
  have hvalue := Regime.meets_evaluate hformed (Regime.suits_sound hcube huniform) hstands
  rw [evaluate, evaluate, heq₁, heq₂, Outcome.ok_bind, Outcome.ok_bind, hsame]
  refine Outcome.bind_congr fun v hv => Outcome.bind_congr fun source hsource => ?_
  have hrows := (Regime.Fits.toSource (hvalue.of_ok hv) htype).of_ok hsource
  rw [walk_congr hcube hrows hformed.admits.spans_mem h₁ h₂ hagree
    fun kept row in₁ in₂ _ hin₁ hin₂ hflag hin => ?_]
  rw [hcondition.evaluate_rest (c := .filter set condition limit simplify) hcube hformed htype rfl
    rfl (List.mem_singleton_self _) hin₁ hin₂ (hflag.trans hempty) hin]

theorem order (hcube : cube.IsSound) {key : Calc} {descending : Bool}
    (hformed : set.Formed cube config) (htype : set.type.isSet = true)
    (hstyle : set.style.isList = true) (huniform : set.everySet uniform = true)
    (hset : set.IsDetermined cube) (hkey : key.IsDetermined cube) :
    (Calc.order set key descending simplify).IsDetermined cube := by
  intro ctx₁ ctx₂ h₁ h₂ hempty hagree
  obtain ⟨here₁, here₂, heq₁, heq₂, hstands, hsame⟩ := hset.evaluate_set
    (c := .order set key descending simplify) hcube rfl rfl simplify h₁ h₂ hempty hagree
  have hvalue := Regime.meets_evaluate hformed (Regime.suits_sound hcube huniform) hstands
  rw [evaluate, evaluate, heq₁, heq₂, Outcome.ok_bind, Outcome.ok_bind, hsame]
  refine Outcome.bind_congr fun v hv => Outcome.bind_congr fun tuples htuples => ?_
  have hrows : (Regime.sound hcube config.limit).Sources set.type.spans (.list tuples) :=
    (Regime.Fits.toList (hvalue.of_ok hv) htype hstyle).of_ok htuples
  rw [walk_congr hcube hrows hformed.admits.spans_mem h₁ h₂ hagree
    fun keys row in₁ in₂ _ hin₁ hin₂ hflag hin => ?_]
  rw [hkey.evaluate_rest (c := .order set key descending simplify) hcube hformed htype rfl rfl
    (List.mem_singleton_self _) hin₁ hin₂ (hflag.trans hempty) hin]

theorem aggregate (hcube : cube.IsSound) {value : Calc} {function : AggregateFunction}
    (hformed : set.Formed cube config) (htype : set.type.isSet = true)
    (huniform : set.everySet uniform = true) (hset : set.IsDetermined cube)
    (hvalue : value.IsDetermined cube) :
    (Calc.aggregate set value function simplify).IsDetermined cube := by
  intro ctx₁ ctx₂ h₁ h₂ hempty hagree
  obtain ⟨here₁, here₂, heq₁, heq₂, hstands, hsame⟩ := hset.evaluate_set
    (c := .aggregate set value function simplify) hcube rfl rfl simplify h₁ h₂ hempty hagree
  have htuples := Regime.meets_evaluate hformed (Regime.suits_sound hcube huniform) hstands
  rw [evaluate, evaluate, heq₁, heq₂, Outcome.ok_bind, Outcome.ok_bind, hsame]
  refine Outcome.bind_congr fun v hv => Outcome.bind_congr fun source hsource => ?_
  have hrows := (Regime.Fits.toSource (htuples.of_ok hv) htype).of_ok hsource
  rw [walk_congr hcube hrows hformed.admits.spans_mem h₁ h₂ hagree
    fun statistics row in₁ in₂ _ hin₁ hin₂ hflag hin => ?_]
  rw [hvalue.evaluate_rest (c := .aggregate set value function simplify) hcube hformed htype rfl
    rfl (List.mem_singleton_self _) hin₁ hin₂ (hflag.trans hempty) hin]

theorem walkCount (hcube : cube.IsSound) (hset : set.IsDetermined cube) :
    (Calc.walkCount set simplify).IsDetermined cube := by
  intro ctx₁ ctx₂ h₁ h₂ hempty hagree
  obtain ⟨here₁, here₂, heq₁, heq₂, -, hsame⟩ := hset.evaluate_set
    (c := .walkCount set simplify) hcube rfl rfl simplify h₁ h₂ hempty hagree
  rw [evaluate, evaluate, heq₁, heq₂, Outcome.ok_bind, Outcome.ok_bind, hsame]

theorem listCount (hset : set.IsDetermined cube) : (Calc.listCount set).IsDetermined cube := by
  intro ctx₁ ctx₂ h₁ h₂ hempty hagree
  rw [evaluate, evaluate, hset _ _ h₁ h₂ hempty
    (hagree.mono fun _ _ hd => dependsOn_of_first rfl rfl hd)]

end Iterated

end Calc.IsDetermined

/-- What a compiled calc depends on decides its value. The induction is on the calcs below it. -/
theorem isDetermined (hcube : cube.IsSound) (hc : c.Formed cube config)
    (huniform : c.everySet Calc.uniform = true) : c.IsDetermined cube := by
  induction c using Calc.children_induction with
  | step c ih =>
    have hbelow : ∀ child ∈ c.children, child.IsDetermined cube := fun child hmem =>
      ih child hmem (hc.of_mem_children hmem) (Calc.everySet_child huniform hmem)
    cases hc with
    | constant | memberLiteral | hierarchyMembers | levelMembers => exact .of_never rfl
    | currentValue => exact .currentValue
    | currentMember hh => exact .currentMember hcube hh
    | memberValue hmembers htypes => exact .memberValue hcube hmembers htypes huniform hbelow
    | tupleValue htuple htype =>
      exact .tupleValue hcube htuple htype huniform (hbelow _ (List.mem_singleton_self _))
    | filter hset hsetType =>
      exact .filter hcube hset hsetType (Calc.everySet_child huniform List.mem_cons_self)
        (hbelow _ List.mem_cons_self) (hbelow _ (by simp [Calc.children]))
    | order hset hsetType hsetStyle =>
      exact .order hcube hset hsetType hsetStyle (Calc.everySet_child huniform List.mem_cons_self)
        (hbelow _ List.mem_cons_self) (hbelow _ (by simp [Calc.children]))
    | aggregate hset hsetType =>
      exact .aggregate hcube hset hsetType (Calc.everySet_child huniform List.mem_cons_self)
        (hbelow _ List.mem_cons_self) (hbelow _ (by simp [Calc.children]))
    | walkCount => exact .walkCount hcube (hbelow _ (List.mem_singleton_self _))
    | listCount => exact .listCount (hbelow _ (List.mem_singleton_self _))
    | _ => exact .of_children rfl hbelow

/-- Dependencies are sound. A calc that does not depend on a hierarchy has one value in all contexts
of members of the cube that differ only in the current member of the hierarchy. -/
theorem Compiler.evaluate_eq_of_not_dependsOn {compiler : Compiler} {exp : Exp} {c : Calc}
    (hcompile : compiler.compile exp = .ok c) (huniform : c.everySet Calc.uniform = true)
    (hcube : compiler.cube.IsSound) {h : Hierarchy} (hfree : c.dependsOn h = false)
    {ctx₁ ctx₂ : Context} (h₁ : ctx₁.Stands compiler.cube) (h₂ : ctx₂.Stands compiler.cube)
    (hempty : ctx₁.nonEmpty = false) (hagree : AgreesOn (· ≠ h) ctx₁ ctx₂) :
    c.evaluate ctx₁ = c.evaluate ctx₂ := by
  have hc := (compiler.meets_compile exp).of_ok hcompile
  refine isDetermined hcube hc huniform ctx₁ ctx₂ h₁ h₂ hempty (hagree.mono fun other _ hd => ?_)
  rintro rfl
  simp [hfree] at hd

namespace Sales

/-- What was sold over the years, whatever year the context stands at. -/
def total : Exp := .aggregate .sum (.members "Time") none

def totalCalc : Calc := .aggregate (.hierarchyMembers time .unbounded) .currentValue .sum true

theorem evaluate_totalCalc_eq :
    totalCalc.dependsOn time = false ∧ totalCalc.evaluate start =
      totalCalc.evaluate { start with members := start.members.set 0 firstYear } := by
  have hcompile : (Compiler.mk .sales {}).compile total = .ok totalCalc := rfl
  have hmember : firstYear ∈ time.members := List.get_mem _ _
  exact ⟨rfl, Compiler.evaluate_eq_of_not_dependsOn hcompile rfl Cube.sales_isSound rfl start_stands
    (start_stands.set rfl hmember) rfl (agreesOn_set start_stands rfl)⟩

end Sales

end CubeCalc
