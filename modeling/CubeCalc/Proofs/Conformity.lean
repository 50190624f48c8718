import CubeCalc.Proofs.Compiled
import CubeCalc.Proofs.Cursor
import CubeCalc.Proofs.Regime
/-!
# Values conform to types

A compiled calc that is evaluated within a regime yields a value of its type and style, or fails in
a way that the regime allows. A set literal has to be of one kind of element for that, unless the
regime does not tell hierarchies apart.
-/

namespace CubeCalc

def Value.isScalar : Value → Bool
  | .null | .boolean _ | .number _ | .string _ => true
  | _ => false

namespace Calc

/-- The members of the elements of a set literal can be given slots, as those of all elements that
fit into memory can. -/
def reservable : List Calc → Bool
  | [] => true
  | first :: rest => (rest.length + 1) * max first.type.arity 1 < Packed.slotBound

def hasMembers (elements : List Calc) : Bool := elements.all fun c => c.type.arity ≠ 0

theorem spans_eq_of_uniform {cube : Cube} {config : CalcConfig} (hcube : cube.IsSound)
    {elements : List Calc} {first : Calc} (hfirst : elements.head? = some first)
    (hformed : ∀ c ∈ elements, c.Formed cube config)
    (htypes : ∀ c ∈ elements, (c.type.isMember || c.type.isTuple) = true)
    (huniform : uniform elements = true) : ∀ c ∈ elements, c.type.spans = first.type.spans := by
  obtain ⟨rest, rfl⟩ : ∃ rest, elements = first :: rest := by
    cases elements <;> simp_all
  intro c hc
  rcases List.mem_cons.mp hc with rfl | hrest
  · rfl
  · have hmem := List.mem_cons_self (a := first) (l := rest)
    have hequal := List.all_eq_true.mp huniform c hrest
    exact ((hformed first hmem).admits.spans_eq_of_beq hcube (hformed c hc).admits
      (htypes first hmem) hequal).symm

end Calc

namespace Regime

open Outcome

variable {cube : Cube} {config : CalcConfig} {r : Regime cube config.limit} {c : Calc} {v : Value}

/-- What is asked of set literals, each point unless the regime has no need of it. -/
structure Suits (r : Regime cube config.limit) (c : Calc) : Prop where
  uniform : cube.IsSound ∧ c.everySet Calc.uniform = true ∨
    ∀ m a b, r.belongs m a → r.belongs m b
  reservable : c.everySet Calc.reservable = true ∨ r.allows (.violation .capacityOverflow)
  hasMembers : c.everySet Calc.hasMembers = true ∨ r.allows (.error (.arityMismatch 1 0))

theorem Suits.child {child : Calc} (hc : r.Suits c) (hchild : child ∈ c.children) : r.Suits child :=
  ⟨hc.uniform.imp_left fun h => ⟨h.1, Calc.everySet_child h.2 hchild⟩,
    hc.reservable.imp_left fun h => Calc.everySet_child h hchild,
    hc.hasMembers.imp_left fun h => Calc.everySet_child h hchild⟩

/-- The values that a type and a style admit. Only the tuple without columns is never missing. Lists
are mutable just if the style says so. -/
def Fits (r : Regime cube config.limit) (style : ResultStyle) (v : Value) : StaticType → Prop
  | .member hierarchy? => v = .null ∨
    ∃ m, v = .member m ∧ List.Forall₂ r.belongs [m] (StaticType.member hierarchy?).spans
  | .tuple columns => v = .null ∧ columns ≠ [] ∨
    ∃ row, v = .tuple row ∧ List.Forall₂ r.belongs row (StaticType.tuple columns).spans
  | .level _ => v = .null ∨ ∃ level, v = .level level
  | .hierarchy _ => v = .null ∨ ∃ h, v = .hierarchy h
  | .set element =>
    (style.isList = true ∧ ∃ l, v = .list l ∧ r.Lists element.spans l ∧
      l.isMutable = decide (style = .mutableList)) ∨
    style.isList = false ∧ ∃ source, v = .iterable source ∧ r.Sources element.spans source
  | .void | .dimension _ => v = .null
  | _ => v.isScalar = true

def Yields (r : Regime cube config.limit) (c : Calc) (v : Value) : Prop := r.Fits c.style v c.type

/-! ### Reading values -/

namespace Fits

variable {type : StaticType} {style : ResultStyle} {m : Member}

theorem isScalar (hv : r.Fits style v type) (htype : type.isScalar = true) :
    v.isScalar = true := by
  cases type <;> simp [StaticType.isScalar] at htype <;> exact hv

theorem toNumber (hv : r.Fits style v type) (htype : type.isScalar = true) :
    Meets (fun _ => True) r.allows v.toNumber := by
  have hscalar := hv.isScalar htype
  cases v <;> simp [Value.isScalar] at hscalar
  · trivial
  · exact r.notNumber (.inl rfl)
  · trivial
  · exact r.notNumber (.inr rfl)

theorem toBoolean (hv : r.Fits style v type) (htype : type.isScalar = true) :
    Meets (fun _ => True) r.allows v.toBoolean := by
  have hscalar := hv.isScalar htype
  cases v <;> simp [Value.isScalar] at hscalar
  · trivial
  · trivial
  · trivial
  · exact r.notBoolean

theorem toMember (hv : r.Fits style v type) (htype : type.isMember = true) :
    Meets (fun m? => ∀ m, m? = some m → List.Forall₂ r.belongs [m] type.spans) r.allows
      v.toMember := by
  cases type <;> simp [StaticType.isMember] at htype
  rcases hv with rfl | ⟨m, rfl, hm⟩
  · simp [Value.toMember]
  · rintro _ ⟨rfl⟩
    exact hm

theorem toTuple (hv : r.Fits style v type) (htype : (type.isMember || type.isTuple) = true) :
    Meets (fun row? => (∀ row, row? = some row → List.Forall₂ r.belongs row type.spans) ∧
      (type = .tuple [] → row? ≠ none)) r.allows v.toTuple := by
  cases type <;> simp [StaticType.isMember, StaticType.isTuple] at htype
  · rcases hv with rfl | ⟨m, rfl, hm⟩
    · simp [Value.toTuple]
    · refine ⟨?_, by simp⟩
      rintro _ ⟨rfl⟩
      exact hm
  · rcases hv with ⟨rfl, hcolumns⟩ | ⟨row, rfl, hrow⟩
    · simp [Value.toTuple, hcolumns]
    · refine ⟨?_, by simp⟩
      rintro _ ⟨rfl⟩
      exact hrow

theorem toSource (hv : r.Fits style v type) (htype : type.isSet = true) :
    Meets (r.Sources type.spans) r.allows v.toSource := by
  cases type <;> simp [StaticType.isSet] at htype
  rcases hv with ⟨-, l, rfl, hl, -⟩ | ⟨-, source, rfl, hsource⟩
  · exact hl
  · exact hsource

theorem exists_list (hv : r.Fits style v type) (htype : type.isSet = true)
    (hstyle : style.isList = true) :
    ∃ l, v = .list l ∧ r.Lists type.spans l ∧ l.isMutable = decide (style = .mutableList) := by
  cases type <;> simp [StaticType.isSet] at htype
  rcases hv with ⟨-, hlist⟩ | ⟨hother, -⟩
  · exact hlist
  · simp [hstyle] at hother

theorem exists_source (hv : r.Fits style v type) (htype : type.isSet = true)
    (hstyle : style.isList = false) :
    ∃ source, v = .iterable source ∧ r.Sources type.spans source := by
  cases type <;> simp [StaticType.isSet] at htype
  rcases hv with ⟨hlist, -⟩ | ⟨-, hsource⟩
  · simp [hstyle] at hlist
  · exact hsource

theorem toList (hv : r.Fits style v type) (htype : type.isSet = true)
    (hstyle : style.isList = true) : Meets (r.Lists type.spans) r.allows v.toList := by
  obtain ⟨l, rfl, hl, -⟩ := hv.exists_list htype hstyle
  exact hl

end Fits

/-! ### Values that fit -/

section Intro

theorem meets_scalar (htype : c.type.isScalar = true) (hv : v.isScalar = true) :
    Meets (r.Yields c) r.allows (.ok v) := by
  rw [meets_ok, Yields]
  cases htype' : c.type <;> simp [htype', StaticType.isScalar] at htype <;> exact hv

theorem meets_member (htype : c.type.isMember = true) {m? : Option Member}
    (hm : ∀ m, m? = some m → List.Forall₂ r.belongs [m] c.type.spans) :
    Meets (r.Yields c) r.allows (.ok (m?.elim .null .member)) := by
  rw [meets_ok, Yields]
  cases htype' : c.type <;> simp [htype', StaticType.isMember] at htype
  rw [htype'] at hm
  cases m? with
  | none => exact .inl rfl
  | some m => exact .inr ⟨m, rfl, hm m rfl⟩

theorem meets_level {hierarchy? : Option Hierarchy} (htype : c.type = .level hierarchy?)
    (level? : Option Level) : Meets (r.Yields c) r.allows (.ok (level?.elim .null .level)) := by
  rw [meets_ok, Yields, htype]
  cases level? with
  | none => exact .inl rfl
  | some level => exact .inr ⟨level, rfl⟩

theorem meets_hierarchy {hierarchy? : Option Hierarchy} (htype : c.type = .hierarchy hierarchy?)
    (own? : Option Hierarchy) :
    Meets (r.Yields c) r.allows (.ok (own?.elim .null .hierarchy)) := by
  rw [meets_ok, Yields, htype]
  cases own? with
  | none => exact .inl rfl
  | some own => exact .inr ⟨own, rfl⟩

theorem meets_list {l : TupleList} (htype : c.type.isSet = true) (hstyle : c.style.isList = true)
    (hl : r.Lists c.type.spans l) (hmutable : l.isMutable = decide (c.style = .mutableList)) :
    Meets (r.Yields c) r.allows (.ok (.list l)) := by
  rw [meets_ok, Yields]
  cases htype' : c.type <;> simp [htype', StaticType.isSet] at htype
  rw [htype'] at hl
  exact .inl ⟨hstyle, l, rfl, hl, hmutable⟩

theorem meets_iterable {source : TupleSource} (htype : c.type.isSet = true)
    (hstyle : c.style.isList = false) (hsource : r.Sources c.type.spans source) :
    Meets (r.Yields c) r.allows (.ok (.iterable source)) := by
  rw [meets_ok, Yields]
  cases htype' : c.type <;> simp [htype', StaticType.isSet] at htype
  rw [htype'] at hsource
  exact .inr ⟨hstyle, source, rfl, hsource⟩

end Intro

/-! ### Evaluating -/

section Evaluate

variable {ctx : Context}

theorem meets_evaluateMembers :
    ∀ {calcs : List Calc}, (∀ c ∈ calcs, Meets (r.Yields c) r.allows (c.evaluate ctx)) →
      (∀ c ∈ calcs, c.type.isMember = true) →
      Meets (fun row? => (∀ row, row? = some row → List.Forall₂ r.belongs row
          (StaticType.tuple (calcs.map Calc.type)).spans) ∧ (calcs = [] → row? ≠ none))
        r.allows (Calc.evaluateMembers ctx calcs)
  | [], _, _ => by
    rw [Calc.evaluateMembers]
    refine ⟨?_, by simp⟩
    rintro _ ⟨rfl⟩
    exact .nil
  | c :: rest, hcalcs, htypes => by
    rw [List.forall_mem_cons] at hcalcs htypes
    rw [Calc.evaluateMembers]
    refine hcalcs.1.bind fun v hv => (Fits.toMember hv htypes.1).bind fun m? hm => ?_
    cases m? with
    | none => exact ⟨by simp, by simp⟩
    | some m =>
      refine (meets_evaluateMembers hcalcs.2 htypes.2).bind fun row? hrow => ⟨?_, by simp⟩
      intro row heq
      obtain ⟨tail, htail, rfl⟩ := Option.map_eq_some_iff.mp heq
      have hfirst := hm m rfl
      have hrest := hrow.1 tail htail
      cases htype : c.type <;> simp [htype, StaticType.isMember] at htypes
      next hierarchy? =>
        rw [htype] at hfirst
        cases hierarchy? with
        | none => simp [StaticType.spans] at hfirst
        | some h =>
          rw [StaticType.spans, Option.toList_some, List.forall₂_cons] at hfirst
          simp only [StaticType.spans, List.map_cons, htype, StaticType.memberHierarchy?,
            List.filterMap_cons]
          exact .cons hfirst.1 hrest

/-- A tuple without columns is refused by lists of members. -/
theorem meets_emptyTuple {P : TupleList → Prop} {l : TupleList} {style : ResultStyle}
    {f : TupleList → Outcome TupleList} (hmutable : l.isMutable = true) (harity : l.arity = 1)
    (hallows : r.allows (.error (.arityMismatch 1 0))) (hv : r.Fits style v (.tuple [])) :
    Meets P r.allows (v.toTuple >>= fun row? =>
      match row? with
      | some row => l.push row >>= f
      | none => f l) := by
  rcases hv with ⟨-, hne⟩ | ⟨row, rfl, hrow⟩
  · exact absurd rfl hne
  · obtain rfl : row = [] := List.forall₂_nil_right_iff.mp hrow
    simpa [Value.toTuple, TupleList.push, TupleList.checkMutable, TupleList.checkArity, hmutable,
      harity, fail] using hallows

/-- Elements are taken over row by row. Those that are tuples without columns are refused. -/
theorem meets_evaluateElements {hs : List Hierarchy} :
    ∀ {calcs : List Calc} {l : TupleList}, r.Lists hs l → l.isMutable = true →
      (∀ c ∈ calcs, Meets (r.Yields c) r.allows (c.evaluate ctx)) →
      (∀ c ∈ calcs, (c.type.isMember || c.type.isTuple) = true) →
      (∀ c ∈ calcs,
        (∀ row, List.Forall₂ r.belongs row c.type.spans → List.Forall₂ r.belongs row hs) ∨
        c.type = .tuple [] ∧ hs.length = 1 ∧ r.allows (.error (.arityMismatch 1 0))) →
      Meets (fun l => r.Lists hs l ∧ l.isMutable = true) r.allows
        (Calc.evaluateElements ctx l calcs)
  | [], l, hl, hmutable, _, _, _ => by
    rw [Calc.evaluateElements]
    exact ⟨hl, hmutable⟩
  | c :: rest, l, hl, hmutable, hcalcs, htypes, hspans => by
    rw [List.forall_mem_cons] at hcalcs htypes hspans
    rw [Calc.evaluateElements]
    refine hcalcs.1.bind fun v hv => ?_
    rcases hspans.1 with hfits | ⟨htype, hlength, hallows⟩
    · refine (Fits.toTuple hv htypes.1).bind fun row? hrow => ?_
      cases row? with
      | none => exact meets_evaluateElements hl hmutable hcalcs.2 htypes.2 hspans.2
      | some row =>
        refine (hl.push hmutable (hfits row (hrow.1 row rfl))).bind fun longer hlonger => ?_
        exact meets_evaluateElements hlonger.1 hlonger.2 hcalcs.2 htypes.2 hspans.2
    · rw [Yields, htype] at hv
      exact meets_emptyTuple hmutable (hl.arity_eq.trans hlength) hallows hv

theorem forall₂_of_blind (hblind : ∀ m a b, r.belongs m a → r.belongs m b) :
    ∀ {row : Tuple} {as bs : List Hierarchy}, List.Forall₂ r.belongs row as →
      as.length = bs.length → List.Forall₂ r.belongs row bs
  | [], [], [], _, _ => .nil
  | _ :: _, _ :: _, _ :: _, .cons hfirst hrest, hlength =>
    .cons (hblind _ _ _ hfirst) (forall₂_of_blind hblind hrest (Nat.succ.inj hlength))

theorem meets_setLiteral {elements : List Calc} {first : Calc}
    (hfirst : elements.head? = some first)
    (hformed : ∀ c ∈ elements, c.Formed cube config)
    (htypes : ∀ c ∈ elements, (c.type.isMember || c.type.isTuple) = true)
    (harity : ∀ c ∈ elements, max c.type.arity 1 = max first.type.arity 1)
    (hsuits : r.Suits (.setLiteral elements config.limit))
    (helements : ∀ c ∈ elements, Meets (r.Yields c) r.allows (c.evaluate ctx)) :
    Meets (r.Yields (.setLiteral elements config.limit)) r.allows
      (Calc.evaluate ctx (.setLiteral elements config.limit)) := by
  have hmem : first ∈ elements := List.mem_of_head? hfirst
  have hcolumns : ∀ c ∈ elements, c.type.arity = c.type.spans.length := fun c hc =>
    (hformed c hc).admits.arity_eq
  have hallows : ∀ c ∈ elements, c.type = .tuple [] → r.allows (.error (.arityMismatch 1 0)) := by
    intro c hc htype
    refine hsuits.hasMembers.resolve_left fun h => ?_
    have := List.all_eq_true.mp (Calc.everySet_own h) c hc
    simp [htype, StaticType.arity] at this
  have hcapacity : Packed.slotBound ≤ elements.length * max first.type.arity 1 →
      r.allows (.violation .capacityOverflow) := by
    intro hslots
    refine hsuits.reservable.resolve_left fun h => ?_
    obtain ⟨rest, rfl⟩ : ∃ rest, elements = first :: rest := by
      cases elements <;> simp_all
    have := of_decide_eq_true (Calc.everySet_own h)
    rw [List.length_cons] at hslots
    omega
  rw [Calc.evaluate]
  simp only [hfirst, Option.map_some, Option.getD_some]
  refine Meets.bind ((TupleList.withCapacity_meets (max first.type.arity 1) elements.length
    config.limit).mono (fun _ h => h) fun failure hfailure => ?_) fun empty hempty => ?_
  · rw [hfailure.1]
    have hslots := hfailure.2
    rw [Nat.max_eq_left (Nat.le_max_right _ 1)] at hslots
    exact hcapacity hslots
  obtain ⟨hholds, hemptyArity, hmutable, hlimit⟩ := hempty
  by_cases hspans : first.type.spans = []
  · -- The literal begins with a tuple without columns, which its own list refuses.
    obtain ⟨rest, rfl⟩ : ∃ rest, elements = first :: rest := by
      cases elements <;> simp_all
    have htype := (hformed first hmem).admits.eq_emptyTuple (htypes first hmem) hspans
    have hone : empty.arity = 1 := by
      rw [hemptyArity, htype]
      rfl
    refine Meets.bind (P := fun _ => False) ?_ fun _ h => h.elim
    rw [Calc.evaluateElements]
    refine (helements first hmem).bind fun v hv => ?_
    rw [Yields, htype] at hv
    exact meets_emptyTuple hmutable hone (hallows first hmem htype) hv
  · have hpos : 0 < first.type.spans.length := List.length_pos_iff.mpr hspans
    have hlists : r.Lists first.type.spans empty := by
      have hrows := hholds.rows_eq
      refine ⟨hrows ▸ hholds, ?_, by simp [hrows], hlimit, by simp [hrows, RowLimit.Allows]⟩
      rw [hemptyArity, hcolumns first hmem]
      omega
    refine (meets_evaluateElements hlists hmutable helements htypes fun c hc => ?_).bind
      fun l hl => ?_
    · have hlength := harity c hc
      rw [hcolumns c hc, hcolumns first hmem] at hlength
      by_cases hempty : c.type.spans = []
      · have htype := (hformed c hc).admits.eq_emptyTuple (htypes c hc) hempty
        refine .inr ⟨htype, ?_, hallows c hc htype⟩
        rw [hempty, List.length_nil] at hlength
        omega
      · left
        have hpos' : 0 < c.type.spans.length := List.length_pos_iff.mpr hempty
        rcases hsuits.uniform with ⟨hcube, huniform⟩ | hblind
        · rw [Calc.spans_eq_of_uniform hcube hfirst hformed htypes
            (Calc.everySet_own huniform) c hc]
          exact fun row hrow => hrow
        · exact fun row hrow => forall₂_of_blind hblind hrow (by omega)
    · exact meets_list (by rw [Calc.type_setLiteral hfirst]; rfl) rfl
        (by rw [Calc.type_setLiteral hfirst]; exact hl.1) hl.2

theorem belongs_parent {type : StaticType} {m parent : Member} (hadmits : cube.Admits type)
    (htype : type.isMember = true) (hm : List.Forall₂ r.belongs [m] type.spans)
    (hparent : m.parent? = some parent) : List.Forall₂ r.belongs [parent] type.spans := by
  obtain ⟨h, hh, rfl⟩ := hadmits.eq_ofHierarchy htype
  exact .cons (r.parent hh (List.forall₂_cons.mp hm).1 hparent) .nil

theorem meets_valueAt {row : Tuple} {hs : List Hierarchy} (htype : c.type.isScalar = true)
    (hctx : r.stands ctx) (hhs : ∀ h ∈ hs, h ∈ cube.hierarchies)
    (hrow : List.Forall₂ r.belongs row hs) : Meets (r.Yields c) r.allows (ctx.valueAt row) := by
  refine (r.moveAll hctx hhs hrow).bind fun moved _ => meets_scalar htype ?_
  cases moved.cell <;> rfl

theorem meets_memberChildren {member : Calc} (hadmits : cube.Admits member.type)
    (htype : member.type.isMember = true) (hctx : r.stands ctx)
    (hmember : Meets (r.Yields member) r.allows (member.evaluate ctx)) :
    Meets (r.Yields (.memberChildren member config.limit)) r.allows
      (Calc.evaluate ctx (.memberChildren member config.limit)) := by
  obtain ⟨h, hh, hspan⟩ := hadmits.eq_ofHierarchy htype
  have hspans : (Calc.memberChildren member config.limit).type.spans = [h] := by
    change member.type.spans = [h]
    rw [hspan]
    rfl
  rw [Calc.evaluate]
  refine hmember.bind fun v hv => (Fits.toMember hv htype).bind fun m? hm => ?_
  cases m? with
  | none => exact meets_list rfl rfl (hspans ▸ lists_new [h]) rfl
  | some m =>
    have hbelongs := hm m rfl
    rw [hspan] at hbelongs
    have hchildren : ∀ child ∈ ctx.childrenOf m, r.belongs child h := fun child hchild =>
      r.child hctx hh (List.forall₂_cons.mp hbelongs).1 hchild
    exact (lists_ofMembers hchildren).bind fun l hl => meets_list rfl rfl (hspans ▸ hl.1) hl.2

theorem meets_crossJoin {left right : Calc} (hleft : cube.Admits left.type)
    (hleftType : left.type.isSet = true) (hleftStyle : left.style.isList = true)
    (hright : cube.Admits right.type) (hrightType : right.type.isSet = true)
    (hrightStyle : right.style.isList = true) (hctx : r.stands ctx)
    (hleftValue : Meets (r.Yields left) r.allows (left.evaluate ctx))
    (hrightValue : Meets (r.Yields right) r.allows (right.evaluate ctx)) :
    Meets (r.Yields (.crossJoin left right config.limit)) r.allows
      (Calc.evaluate ctx (.crossJoin left right config.limit)) := by
  have hadmits := hleft.product hleftType hright hrightType
  have hspans : (Calc.crossJoin left right config.limit).type.spans =
      left.type.spans ++ right.type.spans :=
    hleft.spans_product hleftType hright hrightType
  have hhs : ∀ h ∈ left.type.spans ++ right.type.spans, h ∈ cube.hierarchies :=
    hspans ▸ hadmits.spans_mem
  rw [Calc.evaluate]
  refine hleftValue.bind fun vl hvl => (Fits.toList hvl hleftType hleftStyle).bind fun l hl => ?_
  refine hrightValue.bind fun vr hvr => (Fits.toList hvr hrightType hrightStyle).bind fun m hm => ?_
  split
  · refine (meets_nonEmptyProduct hl hm hhs hctx).bind fun kept hkept => ?_
    exact meets_iterable rfl rfl (hspans ▸ hkept.1.fixed)
  · rcases config.limit.check_cases (productLength l m) with
      ⟨hok, hallows⟩ | ⟨most, hmost, hlt, hfail⟩
    · rw [hok]
      exact meets_iterable rfl rfl ⟨_, _, hspans, hl, hm, hallows⟩
    · rw [hfail]
      exact r.exceeded hmost hlt

section Iterated

variable {set : Calc} {simplify : Bool}

theorem meets_filter {condition : Calc} (hset : cube.Admits set.type)
    (hsetType : set.type.isSet = true) (hconditionType : condition.type.isScalar = true)
    (hctx : r.stands ctx)
    (hsetValue : ∀ {here}, r.stands here → Meets (r.Yields set) r.allows (set.evaluate here))
    (hconditionValue : ∀ {here}, r.stands here →
      Meets (r.Yields condition) r.allows (condition.evaluate here)) :
    Meets (r.Yields (.filter set condition config.limit simplify)) r.allows
      (Calc.evaluate ctx (.filter set condition config.limit simplify)) := by
  rw [Calc.evaluate]
  refine (r.contextFor set simplify hctx).bind fun simplified hsimplified => ?_
  refine (hsetValue hsimplified).bind fun v hv => ?_
  refine (Fits.toSource hv hsetType).bind fun source hsource => ?_
  have hnew := lists_new (r := r) set.type.spans
  rw [← hsource.arity_eq] at hnew
  refine (meets_walk (P := fun l => r.Lists set.type.spans l ∧ l.isMutable = true) hsource
    hset.spans_mem hctx ⟨hnew, rfl⟩ fun kept row here hrow hhere hkept => ?_).bind
      fun kept hkept => ?_
  · refine (hconditionValue hhere).bind fun w hw => ?_
    refine (Fits.toBoolean hw hconditionType).bind fun isKept _ => ?_
    cases isKept with
    | true => exact hsource.addRow hrow hkept.1 hkept.2
    | false => exact hkept
  · exact meets_list (c := .filter set condition _ _) hsetType rfl hkept.1 hkept.2

theorem meets_order {key : Calc} {descending : Bool} (hset : cube.Admits set.type)
    (hsetType : set.type.isSet = true) (hsetStyle : set.style.isList = true)
    (hkeyType : key.type.isScalar = true) (hctx : r.stands ctx)
    (hsetValue : ∀ {here}, r.stands here → Meets (r.Yields set) r.allows (set.evaluate here))
    (hkeyValue : ∀ {here}, r.stands here → Meets (r.Yields key) r.allows (key.evaluate here)) :
    Meets (r.Yields (.order set key descending simplify)) r.allows
      (Calc.evaluate ctx (.order set key descending simplify)) := by
  rw [Calc.evaluate]
  refine (r.contextFor set simplify hctx).bind fun simplified hsimplified => ?_
  refine (hsetValue hsimplified).bind fun v hv => ?_
  refine (Fits.toList hv hsetType hsetStyle).bind fun l hl => ?_
  have hsource : r.Sources set.type.spans (.list l) := hl
  refine (meets_walk (P := fun _ => True) hsource hset.spans_mem hctx trivial
    fun keys row here hrow hhere _ => ?_).bind fun keys _ => ?_
  · refine (hkeyValue hhere).bind fun w hw => ?_
    refine (Fits.toNumber hw hkeyType).bind fun value _ => ?_
    have hwhole : readColumns l.arity row = .ok row := hsource.wholeRow_eq hrow
    rw [hwhole]
    trivial
  · refine (hl.copy.sortBy rfl _).bind fun sorted hsorted => ?_
    exact meets_list (c := .order set key _ _) hsetType rfl hsorted.1 hsorted.2

end Iterated

/-- A compiled calc yields what its type and style promise, or fails as the regime allows. -/
theorem meets_evaluate (hc : c.Formed cube config) (hsuits : r.Suits c) (hctx : r.stands ctx) :
    Meets (r.Yields c) r.allows (c.evaluate ctx) := by
  induction hc generalizing ctx with
  | constant value =>
    rw [Calc.evaluate]
    cases value <;> exact meets_scalar rfl rfl
  | currentValue =>
    rw [Calc.evaluate]
    refine meets_scalar rfl ?_
    cases ctx.cell <;> rfl
  | @currentMember h hh =>
    rw [Calc.evaluate]
    exact (r.current hctx hh).bind fun m hm => .inr ⟨m, rfl, .cons hm .nil⟩
  | @memberLiteral h m hh hm =>
    rw [Calc.evaluate]
    exact .inr ⟨m, rfl, .cons (r.own hh hm) .nil⟩
  | memberValue hmembers htypes ih =>
    rw [Calc.evaluate]
    have hvalues := meets_evaluateMembers (r := r)
      (fun c hc => ih c hc (hsuits.child hc) hctx) htypes
    have hadmits := (Calc.Formed.tupleLiteral hmembers htypes).admits
    rw [Calc.type_tupleLiteral] at hadmits
    refine hvalues.bind fun row? hrow => ?_
    cases row? with
    | none => exact meets_scalar rfl rfl
    | some row => exact meets_valueAt rfl hctx hadmits.spans_mem (hrow.1 row rfl)
  | tupleValue htuple htype ih =>
    rw [Calc.evaluate]
    refine (ih (hsuits.child (List.mem_singleton_self _)) hctx).bind fun v hv => ?_
    refine (Fits.toTuple hv (by rw [htype, Bool.or_true])).bind fun row? hrow => ?_
    cases row? with
    | none => exact meets_scalar rfl rfl
    | some row => exact meets_valueAt rfl hctx htuple.admits.spans_mem (hrow.1 row rfl)
  | @tupleLiteral members hmembers htypes ih =>
    rw [Calc.evaluate]
    have hvalues := meets_evaluateMembers (r := r)
      (fun c hc => ih c hc (hsuits.child hc) hctx) htypes
    refine hvalues.bind fun row? hrow => ?_
    change r.Fits .value _ (Calc.tupleLiteral members).type
    rw [Calc.type_tupleLiteral]
    cases row? with
    | none => exact .inl ⟨rfl, fun h => hrow.2 (List.map_eq_nil_iff.mp h) rfl⟩
    | some row => exact .inr ⟨row, rfl, hrow.1 row rfl⟩
  | memberName hmember htype ih =>
    rw [Calc.evaluate]
    refine (ih (hsuits.child (List.mem_singleton_self _)) hctx).bind fun v hv => ?_
    refine (Fits.toMember hv htype).bind fun m? _ => ?_
    cases m? <;> exact meets_scalar rfl rfl
  | @memberParent member hmember htype ih =>
    rw [Calc.evaluate]
    refine (ih (hsuits.child (List.mem_singleton_self _)) hctx).bind fun v hv => ?_
    refine (Fits.toMember hv htype).bind fun m? hm => ?_
    refine meets_member (c := .memberParent member) htype fun parent hparent => ?_
    obtain ⟨m, rfl, hparent'⟩ := Option.bind_eq_some_iff.mp hparent
    exact belongs_parent hmember.admits htype (hm m rfl) hparent'
  | @memberLevel member hmember htype ih =>
    rw [Calc.evaluate]
    refine (ih (hsuits.child (List.mem_singleton_self _)) hctx).bind fun v hv => ?_
    refine (Fits.toMember hv htype).bind fun m? _ => ?_
    exact meets_level (c := .memberLevel member) rfl _
  | @memberHierarchy member hmember htype ih =>
    rw [Calc.evaluate]
    refine (ih (hsuits.child (List.mem_singleton_self _)) hctx).bind fun v hv => ?_
    refine (Fits.toMember hv htype).bind fun m? _ => ?_
    exact meets_hierarchy (c := .memberHierarchy member) rfl _
  | @hierarchyMembers h hh =>
    rw [Calc.evaluate]
    refine (lists_ofMembers (h := h) fun m hm => r.own hh hm).bind fun l hl => ?_
    exact meets_list rfl rfl hl.1.fixed rfl
  | @levelMembers h hh depth =>
    rw [Calc.evaluate]
    refine (lists_ofMembers (h := h) fun m hm => r.own hh (List.mem_of_mem_filter hm)).bind
      fun l hl => ?_
    exact meets_list rfl rfl hl.1.fixed rfl
  | memberChildren hmember htype ih =>
    exact meets_memberChildren hmember.admits htype hctx
      (ih (hsuits.child (List.mem_singleton_self _)) hctx)
  | setLiteral hfirst helements htypes harity ih =>
    refine meets_setLiteral hfirst helements htypes harity hsuits fun c hc => ?_
    exact ih c hc (hsuits.child hc) hctx
  | crossJoin hleft hleftType hleftStyle hright hrightType hrightStyle ihleft ihright =>
    exact meets_crossJoin hleft.admits hleftType hleftStyle hright.admits hrightType hrightStyle
      hctx (ihleft (hsuits.child List.mem_cons_self) hctx)
      (ihright (hsuits.child (by simp [Calc.children])) hctx)
  | filter hset hsetType hcondition hconditionType ihset ihcondition =>
    exact meets_filter hset.admits hsetType hconditionType hctx
      (ihset (hsuits.child List.mem_cons_self))
      (ihcondition (hsuits.child (by simp [Calc.children])))
  | order hset hsetType hsetStyle hkey hkeyType descending ihset ihkey =>
    exact meets_order hset.admits hsetType hsetStyle hkeyType hctx
      (ihset (hsuits.child List.mem_cons_self)) (ihkey (hsuits.child (by simp [Calc.children])))
  | aggregate hset hsetType hvalue hvalueType function ihset ihvalue =>
    rw [Calc.evaluate]
    refine (r.contextFor _ _ hctx).bind fun simplified hsimplified => ?_
    refine (ihset (hsuits.child List.mem_cons_self) hsimplified).bind fun v hv => ?_
    refine (Fits.toSource hv hsetType).bind fun source hsource => ?_
    refine (meets_walk (P := fun _ => True) hsource hset.admits.spans_mem hctx trivial
      fun statistics row here hrow hhere _ => ?_).bind fun statistics _ => ?_
    · exact (ihvalue (hsuits.child (by simp [Calc.children])) hhere).bind fun _ _ => trivial
    · refine meets_scalar rfl ?_
      cases statistics.compute function <;> rfl
  | walkCount hset hsetType ihset =>
    rw [Calc.evaluate]
    refine (r.contextFor _ _ hctx).bind fun simplified hsimplified => ?_
    refine (ihset (hsuits.child (List.mem_singleton_self _)) hsimplified).bind fun v hv => ?_
    refine (Fits.toSource hv hsetType).bind fun source hsource => ?_
    rw [TupleSource.count_of_reach fun _ => hsource.reach_eq]
    exact meets_scalar rfl rfl
  | listCount hset hsetType hsetStyle ihset =>
    rw [Calc.evaluate]
    refine (ihset (hsuits.child (List.mem_singleton_self _)) hctx).bind fun v hv => ?_
    exact (Fits.toList hv hsetType hsetStyle).bind fun l _ => meets_scalar rfl rfl
  | arithmetic op hleft hleftType hright hrightType ihleft ihright =>
    rw [Calc.evaluate]
    refine (ihleft (hsuits.child List.mem_cons_self) hctx).bind fun v hv => ?_
    refine (Fits.toNumber hv hleftType).bind fun x _ => ?_
    refine (ihright (hsuits.child (by simp [Calc.children])) hctx).bind fun w hw => ?_
    refine (Fits.toNumber hw hrightType).bind fun y _ => meets_scalar rfl ?_
    cases op.apply x y <;> rfl
  | comparison op hleft hleftType hright hrightType ihleft ihright =>
    rw [Calc.evaluate]
    refine (ihleft (hsuits.child List.mem_cons_self) hctx).bind fun v hv => ?_
    refine (Fits.toNumber hv hleftType).bind fun x _ => ?_
    refine (ihright (hsuits.child (by simp [Calc.children])) hctx).bind fun w hw => ?_
    exact (Fits.toNumber hw hrightType).bind fun y _ => meets_scalar rfl rfl
  | and hleft hleftType hright hrightType ihleft ihright =>
    rw [Calc.evaluate]
    refine (ihleft (hsuits.child List.mem_cons_self) hctx).bind fun v hv => ?_
    refine (Fits.toBoolean hv hleftType).bind fun b _ => ?_
    split
    · refine (ihright (hsuits.child (by simp [Calc.children])) hctx).bind fun w hw => ?_
      exact (Fits.toBoolean hw hrightType).bind fun _ _ => meets_scalar rfl rfl
    · exact meets_scalar rfl rfl
  | or hleft hleftType hright hrightType ihleft ihright =>
    rw [Calc.evaluate]
    refine (ihleft (hsuits.child List.mem_cons_self) hctx).bind fun v hv => ?_
    refine (Fits.toBoolean hv hleftType).bind fun b _ => ?_
    split
    · exact meets_scalar rfl rfl
    · refine (ihright (hsuits.child (by simp [Calc.children])) hctx).bind fun w hw => ?_
      exact (Fits.toBoolean hw hrightType).bind fun _ _ => meets_scalar rfl rfl
  | not hoperand htype ih =>
    rw [Calc.evaluate]
    refine (ih (hsuits.child (List.mem_singleton_self _)) hctx).bind fun v hv => ?_
    exact (Fits.toBoolean hv htype).bind fun _ _ => meets_scalar rfl rfl
  | @iif condition thenCalc elseCalc hcondition hconditionType hthen hthenType helse helseType
      ihcondition ihthen ihelse =>
    rw [Calc.evaluate]
    refine (ihcondition (hsuits.child List.mem_cons_self) hctx).bind fun v hv => ?_
    refine (Fits.toBoolean hv hconditionType).bind fun b _ => ?_
    have htype : (Calc.iif condition thenCalc elseCalc).type.isScalar = true := hthenType
    split
    · refine (ihthen (hsuits.child (by simp [Calc.children])) hctx).mono (fun w hw => ?_)
        fun _ h => h
      exact meets_scalar htype (Fits.isScalar hw hthenType)
    · refine (ihelse (hsuits.child (by simp [Calc.children])) hctx).mono (fun w hw => ?_)
        fun _ h => h
      exact meets_scalar htype (Fits.isScalar hw helseType)
  | @packedList c style hc htype hstyle ih =>
    rw [Calc.evaluate]
    refine (ih (hsuits.child (List.mem_singleton_self _)) hctx).bind fun v hv => ?_
    refine (Fits.toSource hv htype).bind fun source hsource => ?_
    refine hsource.materialize.bind fun packed hpacked => ?_
    cases style with
    | list => exact meets_list (c := .packedList c .list _) htype rfl hpacked.1.fixed rfl
    | mutableList =>
      exact meets_list (c := .packedList c .mutableList _) htype rfl hpacked.1 hpacked.2
    | any | iterable | value => cases hstyle
  | @copiedList c hc htype hstyle ih =>
    rw [Calc.evaluate]
    refine (ih (hsuits.child (List.mem_singleton_self _)) hctx).bind fun v hv => ?_
    refine (Fits.toList hv htype hstyle).bind fun l hl => ?_
    exact meets_list (c := .copiedList c) htype rfl hl.copy rfl
  | @effect c hc ih =>
    rw [Calc.evaluate]
    refine (ih (hsuits.child (List.mem_singleton_self _)) hctx).bind fun v hv => ?_
    split
    · next hstyle =>
      have hset := hc.isSet_of_style (by simp [hstyle])
      exact (Fits.toSource hv hset.1).bind fun _ _ => rfl
    · rfl

end Evaluate

end Regime

end CubeCalc
