import CubeCalc.Exp.Compile
import CubeCalc.Proofs.Outcome
import CubeCalc.Proofs.StaticType
import Mathlib.Data.Option.Basic
/-!
# Compiled calcs

A compiled calc is made of the built-in forms only, over hierarchies and members of its cube, and
each form has children of the types and styles that its evaluation takes for granted. Compiling an
expression, and adapting the result, makes no others and fails with errors only.
-/

namespace CubeCalc

/-- An error, as opposed to a broken contract. -/
def Failure.IsError (failure : Failure) : Prop := ∃ cause, failure = .error cause

theorem Failure.isError_error (cause : CalcError) : (Failure.error cause).IsError := ⟨cause, rfl⟩

namespace Calc

/-! ### What follows from the form -/

theorem sizeOf_lt_of_mem_children {c child : Calc} (hchild : child ∈ c.children) :
    sizeOf child < sizeOf c := by
  cases c <;> simp [children] at hchild ⊢
  case memberValue | tupleLiteral | setLiteral | custom =>
    have := List.sizeOf_lt_of_mem hchild
    omega
  all_goals
    rcases hchild with rfl | rfl | rfl <;> omega

/-- What holds of a calc if it holds of its children holds of all. -/
theorem children_induction {P : Calc → Prop} (step : ∀ c, (∀ child ∈ c.children, P child) → P c)
    (c : Calc) : P c :=
  step c fun child hchild =>
    have := sizeOf_lt_of_mem_children hchild
    children_induction step child
termination_by sizeOf c

theorem type_tupleLiteral (members : List Calc) :
    (tupleLiteral members).type = .tuple (members.map type) :=
  congrArg StaticType.tuple (foldTrees_eq_map _ _)

theorem type_setLiteral {elements : List Calc} {first : Calc} (hfirst : elements.head? = some first)
    (limit : RowLimit) : (setLiteral elements limit).type = .set first.type := by
  cases elements with
  | nil => simp at hfirst
  | cons own rest =>
    obtain rfl : own = first := by simpa using hfirst
    rfl

/-- A calc depends as its rule says of what its children depend on. -/
theorem dependsOn_eq (h : Hierarchy) (c : Calc) :
    c.dependsOn h = c.rule.dependsOn h (dependences h c.children) := by
  rw [dependsOn, foldTree_eq]
  congr 1
  simp only [dependences, List.zip_map_right, List.map_map]
  induction c.children with
  | nil => rfl
  | cons child rest ih => simp_all [dependsOn]

/-- Whether a property holds of the elements of every set literal in a calc. -/
def everySet (p : List Calc → Bool) : Calc → Bool :=
  foldTree fun c below => (match c with
    | .setLiteral elements _ => p elements
    | _ => true) && below.all id

theorem everySet_eq (p : List Calc → Bool) (c : Calc) :
    c.everySet p = ((match c with
      | .setLiteral elements _ => p elements
      | _ => true) && c.children.all (everySet p)) := by
  rw [everySet, foldTree_eq]
  simp only [List.all_map]
  rfl

theorem everySet_child {p : List Calc → Bool} {c child : Calc} (hc : c.everySet p = true)
    (hchild : child ∈ c.children) : child.everySet p = true := by
  rw [everySet_eq, Bool.and_eq_true] at hc
  exact List.all_eq_true.mp hc.2 child hchild

theorem everySet_own {p : List Calc → Bool} {elements : List Calc} {limit : RowLimit}
    (hc : (setLiteral elements limit).everySet p = true) : p elements = true := by
  rw [everySet_eq, Bool.and_eq_true] at hc
  exact hc.1

/-- The elements of a set literal have one type. -/
def uniform : List Calc → Bool
  | [] => true
  | first :: rest => rest.all fun c => first.type == c.type

end Calc

/-! ### Compiled forms -/

section Formed

variable (cube : Cube) (config : CalcConfig)

/-- The calcs that a cube's expressions are compiled to. -/
inductive Calc.Formed : Calc → Prop where
  | constant (value : Literal) : Formed (.constant value.toValue)
  | currentValue : Formed .currentValue
  | currentMember {h : Hierarchy} (hh : h ∈ cube.hierarchies) : Formed (.currentMember h)
  | memberLiteral {h : Hierarchy} {m : Member} (hh : h ∈ cube.hierarchies) (hm : m ∈ h.members) :
    Formed (.memberLiteral h m)
  | memberValue {members : List Calc} (hmembers : ∀ c ∈ members, Formed c)
    (htypes : ∀ c ∈ members, c.type.isMember = true) : Formed (.memberValue members)
  | tupleValue {tuple : Calc} (htuple : Formed tuple) (htype : tuple.type.isTuple = true) :
    Formed (.tupleValue tuple)
  | tupleLiteral {members : List Calc} (hmembers : ∀ c ∈ members, Formed c)
    (htypes : ∀ c ∈ members, c.type.isMember = true) : Formed (.tupleLiteral members)
  | memberName {member : Calc} (hmember : Formed member) (htype : member.type.isMember = true) :
    Formed (.memberName member)
  | memberParent {member : Calc} (hmember : Formed member) (htype : member.type.isMember = true) :
    Formed (.memberParent member)
  | memberLevel {member : Calc} (hmember : Formed member) (htype : member.type.isMember = true) :
    Formed (.memberLevel member)
  | memberHierarchy {member : Calc} (hmember : Formed member)
    (htype : member.type.isMember = true) : Formed (.memberHierarchy member)
  | hierarchyMembers {h : Hierarchy} (hh : h ∈ cube.hierarchies) :
    Formed (.hierarchyMembers h config.limit)
  | levelMembers {h : Hierarchy} (hh : h ∈ cube.hierarchies) (depth : Nat) :
    Formed (.levelMembers h depth config.limit)
  | memberChildren {member : Calc} (hmember : Formed member)
    (htype : member.type.isMember = true) : Formed (.memberChildren member config.limit)
  | setLiteral {elements : List Calc} {first : Calc} (hfirst : elements.head? = some first)
    (helements : ∀ c ∈ elements, Formed c)
    (htypes : ∀ c ∈ elements, (c.type.isMember || c.type.isTuple) = true)
    (harity : ∀ c ∈ elements, max c.type.arity 1 = max first.type.arity 1) :
    Formed (.setLiteral elements config.limit)
  | crossJoin {left right : Calc} (hleft : Formed left) (hleftType : left.type.isSet = true)
    (hleftStyle : left.style.isList = true) (hright : Formed right)
    (hrightType : right.type.isSet = true) (hrightStyle : right.style.isList = true) :
    Formed (.crossJoin left right config.limit)
  | filter {set condition : Calc} (hset : Formed set) (hsetType : set.type.isSet = true)
    (hcondition : Formed condition) (hconditionType : condition.type.isScalar = true) :
    Formed (.filter set condition config.limit config.simplifyContext)
  | order {set key : Calc} (hset : Formed set) (hsetType : set.type.isSet = true)
    (hsetStyle : set.style.isList = true) (hkey : Formed key)
    (hkeyType : key.type.isScalar = true) (descending : Bool) :
    Formed (.order set key descending config.simplifyContext)
  | aggregate {set value : Calc} (hset : Formed set) (hsetType : set.type.isSet = true)
    (hvalue : Formed value) (hvalueType : value.type.isScalar = true)
    (function : AggregateFunction) :
    Formed (.aggregate set value function config.simplifyContext)
  | walkCount {set : Calc} (hset : Formed set) (hsetType : set.type.isSet = true) :
    Formed (.walkCount set config.simplifyContext)
  | listCount {set : Calc} (hset : Formed set) (hsetType : set.type.isSet = true)
    (hsetStyle : set.style.isList = true) : Formed (.listCount set)
  | arithmetic {left right : Calc} (op : ArithmeticOp) (hleft : Formed left)
    (hleftType : left.type.isScalar = true) (hright : Formed right)
    (hrightType : right.type.isScalar = true) : Formed (.arithmetic op left right)
  | comparison {left right : Calc} (op : ComparisonOp) (hleft : Formed left)
    (hleftType : left.type.isScalar = true) (hright : Formed right)
    (hrightType : right.type.isScalar = true) : Formed (.comparison op left right)
  | and {left right : Calc} (hleft : Formed left) (hleftType : left.type.isScalar = true)
    (hright : Formed right) (hrightType : right.type.isScalar = true) : Formed (.and left right)
  | or {left right : Calc} (hleft : Formed left) (hleftType : left.type.isScalar = true)
    (hright : Formed right) (hrightType : right.type.isScalar = true) : Formed (.or left right)
  | not {operand : Calc} (hoperand : Formed operand) (htype : operand.type.isScalar = true) :
    Formed (.not operand)
  | iif {condition thenCalc elseCalc : Calc} (hcondition : Formed condition)
    (hconditionType : condition.type.isScalar = true) (hthen : Formed thenCalc)
    (hthenType : thenCalc.type.isScalar = true) (helse : Formed elseCalc)
    (helseType : elseCalc.type.isScalar = true) : Formed (.iif condition thenCalc elseCalc)
  | packedList {c : Calc} {style : ResultStyle} (hc : Formed c) (htype : c.type.isSet = true)
    (hstyle : style.isList = true) : Formed (.packedList c style config.limit)
  | copiedList {c : Calc} (hc : Formed c) (htype : c.type.isSet = true)
    (hstyle : c.style.isList = true) : Formed (.copiedList c)
  | effect {c : Calc} (hc : Formed c) : Formed (.effect c)

end Formed

namespace Calc

variable {cube : Cube} {config : CalcConfig} {c : Calc}

namespace Formed

open StaticType

theorem of_mem_children {child : Calc} (hc : Formed cube config c) (hchild : child ∈ c.children) :
    Formed cube config child := by
  cases hc with
  | memberValue hmembers | tupleLiteral hmembers => exact hmembers child hchild
  | setLiteral _ helements => exact helements child hchild
  | iif =>
    simp only [children, List.mem_cons, List.not_mem_nil, or_false] at hchild
    rcases hchild with rfl | rfl | rfl <;> assumption
  | crossJoin | filter | order | aggregate | arithmetic | comparison | and | or =>
    simp only [children, List.mem_cons, List.not_mem_nil, or_false] at hchild
    rcases hchild with rfl | rfl <;> assumption
  | constant | currentValue | currentMember | memberLiteral => simp [children] at hchild
  | hierarchyMembers | levelMembers => simp [children] at hchild
  | _ =>
    obtain rfl := List.mem_singleton.mp hchild
    assumption

/-- What a compiled calc is typed with. -/
theorem admits (hc : Formed cube config c) : cube.Admits c.type := by
  induction hc with
  | constant value => exact .scalar (by cases value <;> rfl)
  | currentMember hh | memberLiteral hh => exact .member hh
  | tupleLiteral hmembers htypes ih =>
    obtain ⟨hs, hhs, heq⟩ := Cube.Admits.exists_columns (List.forall_mem_map.mpr ih)
      (List.forall_mem_map.mpr htypes)
    rw [type_tupleLiteral, heq]
    exact .tuple hhs
  | memberLevel => exact .level _
  | memberHierarchy => exact .hierarchy _
  | hierarchyMembers hh | levelMembers hh => exact .setOfMembers hh
  | memberChildren hmember htype ih => exact ih.set (by rw [htype, Bool.true_or])
  | setLiteral hfirst helements htypes harity ih =>
    have hmem := List.mem_of_head? hfirst
    rw [type_setLiteral hfirst]
    exact (ih _ hmem).set (htypes _ hmem)
  | @crossJoin left right hleft hleftType _ hright hrightType _ ihleft ihright =>
    exact ihleft.product hleftType ihright hrightType
  | memberParent _ _ ih | filter _ _ _ _ ih | order _ _ _ _ _ _ ih => exact ih
  | packedList _ _ _ ih | copiedList _ _ _ ih => exact ih
  | iif _ _ _ _ _ _ _ ih => exact ih
  | effect => exact .void
  | _ => exact .scalar rfl

/-- What is not handed out as a value is a set, as a list or to be walked. -/
theorem isSet_of_style (hc : Formed cube config c) (hstyle : c.style ≠ .value) :
    c.type.isSet = true ∧ (c.style.isList = true ∨ c.style = .iterable) := by
  cases hc with
  | hierarchyMembers | levelMembers | memberChildren => exact ⟨rfl, .inl rfl⟩
  | setLiteral hfirst => exact ⟨by rw [type_setLiteral hfirst]; rfl, .inl rfl⟩
  | crossJoin => exact ⟨rfl, .inr rfl⟩
  | filter _ hsetType | order _ hsetType => exact ⟨hsetType, .inl rfl⟩
  | packedList _ htype hlist => exact ⟨htype, .inl hlist⟩
  | copiedList _ htype => exact ⟨htype, .inl rfl⟩
  | _ => exact absurd rfl hstyle

end Formed

/-! ### Adapting -/

open Outcome

theorem meets_checked {P : Calc → Prop} (hfits : c.fits = true) (hc : P c) :
    Meets P Failure.IsError c.checked := by
  rw [checked, if_pos hfits]
  exact hc

theorem fits_list (hvariant : c.variant = .list) (htype : c.type.isSet = true)
    (hstyle : c.style.isList = true) : c.fits = true := by
  rw [fits, hvariant, CalcVariant.accepts, CalcVariant.acceptsStyle, hstyle, Bool.and_true]
  cases hcase : c.type <;> simp_all [StaticType.isSet, CalcVariant.acceptsType]

theorem fits_member (hvariant : c.variant = .member) (htype : c.type.isMember = true)
    (hstyle : c.style = .value) : c.fits = true := by
  rw [fits, hvariant, hstyle]
  cases hcase : c.type <;> simp_all [StaticType.isMember, CalcVariant.accepts,
    CalcVariant.acceptsType, CalcVariant.acceptsStyle]

theorem meets_demand (hc : Formed cube config c) (expected : Expected) (ok : StaticType → Bool) :
    Meets (fun own => Formed cube config own ∧ ok own.type = true) Failure.IsError
      (c.demand expected ok) := by
  rw [demand]
  split
  · next hok => exact ⟨hc, hok⟩
  · exact Failure.isError_error _

theorem meets_asScalar (hc : Formed cube config c) :
    Meets (fun own => Formed cube config own ∧ own.type.isScalar = true) Failure.IsError
      c.asScalar := by
  rw [asScalar]
  split
  · next htype =>
    refine ⟨.memberValue (fun own hown => ?_) (fun own hown => ?_), rfl⟩ <;>
      rw [List.mem_singleton.mp hown]
    · exact hc
    · rw [htype]
      rfl
  · next htype => exact ⟨.tupleValue hc (by rw [htype]; rfl), rfl⟩
  · exact meets_demand hc _ _

theorem isScalar_of_isNumeric {type : StaticType} (htype : isNumeric type = true) :
    type.isScalar = true := by
  cases type <;> simp_all [isNumeric, StaticType.isScalar]

theorem isScalar_of_isBoolean {type : StaticType} (htype : isBoolean type = true) :
    type.isScalar = true := by
  cases type <;> simp_all [isBoolean, StaticType.isScalar]

theorem meets_asNumeric (hc : Formed cube config c) :
    Meets (fun own => Formed cube config own ∧ own.type.isScalar = true) Failure.IsError
      c.asNumeric := by
  refine (meets_asScalar hc).bind fun own hown => ?_
  refine (meets_demand hown.1 _ _).mono (fun result hresult => ?_) fun _ h => h
  exact ⟨hresult.1, isScalar_of_isNumeric hresult.2⟩

theorem meets_asBoolean (hc : Formed cube config c) :
    Meets (fun own => Formed cube config own ∧ own.type.isScalar = true) Failure.IsError
      c.asBoolean := by
  refine (meets_asScalar hc).bind fun own hown => ?_
  refine (meets_demand hown.1 _ _).mono (fun result hresult => ?_) fun _ h => h
  exact ⟨hresult.1, isScalar_of_isBoolean hresult.2⟩

theorem meets_asMember (hc : Formed cube config c) :
    Meets (fun own => Formed cube config own ∧ own.type.isMember = true) Failure.IsError
      c.asMember :=
  meets_demand hc _ _

theorem meets_asElement (hc : Formed cube config c) :
    Meets (fun own => Formed cube config own ∧ (own.type.isMember || own.type.isTuple) = true)
      Failure.IsError c.asElement :=
  meets_demand hc .memberOrTuple fun type => type.isMember || type.isTuple

/-- What is negotiated is the first of the requested styles that can be met. -/
theorem meets_negotiate (actual : ResultStyle) (requested : List ResultStyle) :
    Meets (fun met => ∃ wanted ∈ requested, met.1 = actual.settled wanted ∧
      actual.adaptation? wanted = some met.2) Failure.IsError (actual.negotiate requested) := by
  rw [ResultStyle.negotiate]
  cases hmet : requested.findSome? fun style =>
      (actual.adaptation? style).map fun adaptation => (actual.settled style, adaptation) with
  | none => exact Failure.isError_error _
  | some met =>
    obtain ⟨wanted, hwanted, hmap⟩ := List.exists_of_findSome?_eq_some hmet
    obtain ⟨adaptation, hadaptation, rfl⟩ := Option.map_eq_some_iff.mp hmap
    exact ⟨wanted, hwanted, rfl, hadaptation⟩

/-- A calc brought to a style: it meets the style as it is, it is packed, or it is copied. -/
inductive Adapts (config : CalcConfig) (c : Calc) : ResultStyle → Calc → Prop where
  | asIs {wanted : ResultStyle} (hwanted : c.style.adaptation? wanted = some .asIs) :
    Adapts config c wanted c
  | packed {wanted : ResultStyle} (hstyle : c.style = .iterable) (hwanted : wanted.isList = true) :
    Adapts config c wanted (.packedList c wanted config.limit)
  | copied (hstyle : c.style = .list) : Adapts config c .mutableList (.copiedList c)

namespace Formed

variable {own : Calc} {wanted : ResultStyle} {adaptation : Adaptation}

/-- No calc is declared with the style that stands for any other. -/
theorem style_ne_any (hc : Formed cube config c) : c.style ≠ .any := by
  intro hany
  have hset := hc.isSet_of_style (by simp [hany])
  simp [hany, ResultStyle.isList] at hset

theorem exists_adapted (hc : Formed cube config c)
    (hadaptation : c.style.adaptation? wanted = some adaptation) :
    ∃ own, c.adapted (c.style.settled wanted) config.limit adaptation = .ok own ∧
      Adapts config c wanted own := by
  cases adaptation with
  | asIs => exact ⟨c, rfl, .asIs hadaptation⟩
  | materialize =>
    obtain ⟨hstyle, hlist, hsettled⟩ : c.style = .iterable ∧ wanted.isList = true ∧
        c.style.settled wanted = wanted := by
      cases hcase : c.style <;> cases wanted <;>
        simp_all [ResultStyle.adaptation?, ResultStyle.isList, ResultStyle.settled]
    have hset := (hc.isSet_of_style (by simp [hstyle])).1
    have hfits : (Calc.packedList c wanted config.limit).fits = true := fits_list rfl hset hlist
    refine ⟨.packedList c wanted config.limit, ?_, .packed hstyle hlist⟩
    rw [hsettled, adapted, makePackedList, if_pos hlist, checked, if_pos hfits]
  | copy =>
    obtain ⟨hstyle, rfl⟩ : c.style = .list ∧ wanted = .mutableList := by
      cases hcase : c.style <;> cases wanted <;> simp_all [ResultStyle.adaptation?]
    have hset := (hc.isSet_of_style (by simp [hstyle])).1
    have hfits : (Calc.copiedList c).fits = true := fits_list rfl hset rfl
    refine ⟨.copiedList c, ?_, .copied hstyle⟩
    rw [adapted, makeCopiedList, checked, if_pos hfits]

/-- Adapting leaves the type, and it brings a set to a list if a list is wanted. -/
theorem of_adapts (hc : Formed cube config c) (hown : Adapts config c wanted own) :
    Formed cube config own ∧ own.type = c.type ∧
      (wanted.isList = true → own.style.isList = true) := by
  cases hown with
  | asIs hwanted =>
    refine ⟨hc, rfl, fun hlist => ?_⟩
    have hany := hc.style_ne_any
    cases hcase : c.style <;> cases wanted <;>
      simp_all [ResultStyle.adaptation?, ResultStyle.isList]
  | packed hstyle hwanted =>
    have hset := (hc.isSet_of_style (by simp [hstyle])).1
    exact ⟨.packedList hc hset hwanted, rfl, fun _ => hwanted⟩
  | copied hstyle =>
    have hset := (hc.isSet_of_style (by simp [hstyle])).1
    exact ⟨.copiedList hc hset (by simp [hstyle, ResultStyle.isList]), rfl, fun _ => rfl⟩

end Formed

/-- If only lists are asked for, a set is brought to a list. -/
theorem meets_adapt (hc : Formed cube config c) (styles : List ResultStyle) :
    Meets (fun own => Formed cube config own ∧ own.type = c.type ∧
        ((∀ style ∈ styles, style.isList = true) → own.style.isList = true))
      Failure.IsError (c.adapt styles config.limit) := by
  refine (meets_negotiate c.style styles).bind fun met hmet => ?_
  obtain ⟨style, adaptation⟩ := met
  obtain ⟨wanted, hwanted, rfl, hadaptation⟩ := hmet
  obtain ⟨own, hadapted, hadapts⟩ := hc.exists_adapted hadaptation
  obtain ⟨hown, htype, hlist⟩ := hc.of_adapts hadapts
  simp only [hadapted]
  exact ⟨hown, htype, fun hlists => hlist (hlists wanted hwanted)⟩

theorem meets_asSet (hc : Formed cube config c) :
    Meets (fun own => Formed cube config own ∧ own.type.isSet = true) Failure.IsError c.asSet :=
  meets_demand hc _ _

theorem meets_asList (hc : Formed cube config c) (isMutable : Bool) :
    Meets (fun own => Formed cube config own ∧ own.type.isSet = true ∧ own.style.isList = true)
      Failure.IsError (c.asList isMutable config.limit) := by
  refine (meets_asSet hc).bind fun set hset => ?_
  refine (meets_adapt hset.1 _).mono (fun own hown => ?_) fun _ h => h
  refine ⟨hown.1, hown.2.1 ▸ hset.2, hown.2.2 ?_⟩
  cases isMutable <;> simp [ResultStyle.isList]

theorem meets_asIterable (hc : Formed cube config c) :
    Meets (fun own => Formed cube config own ∧ own.type.isSet = true) Failure.IsError
      (c.asIterable config.limit) := by
  refine (meets_asSet hc).bind fun set hset => ?_
  exact (meets_adapt hset.1 _).mono (fun own hown => ⟨hown.1, hown.2.1 ▸ hset.2⟩) fun _ h => h

theorem meets_makeSetLiteral {elements : List Calc}
    (helements : ∀ c ∈ elements, Formed cube config c)
    (htypes : ∀ c ∈ elements, (c.type.isMember || c.type.isTuple) = true) :
    Meets (Formed cube config) Failure.IsError (makeSetLiteral elements config.limit) := by
  cases elements with
  | nil => exact Failure.isError_error _
  | cons first rest =>
    simp only [makeSetLiteral]
    split
    · exact Failure.isError_error _
    · next hnone =>
      have hfirst : (first :: rest).head? = some first := rfl
      refine .setLiteral hfirst helements htypes fun c hc => ?_
      simpa using List.find?_eq_none.mp hnone c hc

end Calc

/-! ### Compiling -/

namespace Compiler

open Outcome Calc

variable (compiler : Compiler)

abbrev Makes (c : Calc) : Prop := Formed compiler.cube compiler.config c

theorem meets_resolveHierarchy (name : String) :
    Meets (· ∈ compiler.cube.hierarchies) Failure.IsError
      (compiler.cube.resolveHierarchy name) := by
  rw [Cube.resolveHierarchy]
  split
  · next h hfound =>
    rcases (Option.orElse_eq_some _ _ _).mp hfound with hname | ⟨-, hunique⟩
    · obtain ⟨i, -, hi⟩ := Option.bind_eq_some_iff.mp hname
      exact List.mem_of_getElem? hi
    · exact List.mem_of_find?_eq_some hunique
  · exact Failure.isError_error _

theorem meets_resolveMember (name : String) :
    Meets (fun found => found.1 ∈ compiler.cube.hierarchies ∧ found.2 ∈ found.1.members)
      Failure.IsError (compiler.cube.resolveMember name) := by
  rw [Cube.resolveMember]
  split
  · next found hfound =>
    obtain ⟨h, hh, hlookup⟩ := List.exists_of_findSome?_eq_some hfound
    obtain ⟨m, hm, rfl⟩ := Option.map_eq_some_iff.mp hlookup
    refine ⟨hh, ?_⟩
    rcases (Option.orElse_eq_some _ _ _).mp hm with hunique | ⟨-, hname⟩
    · exact List.mem_of_find?_eq_some hunique
    · exact List.mem_of_find?_eq_some hname
  · exact Failure.isError_error _

mutual

/-- Compiling makes compiled calcs, or fails with an error. -/
theorem meets_compile : ∀ exp : Exp, Meets compiler.Makes Failure.IsError (compiler.compile exp)
  | .literal value => by
    rw [compile]
    exact .constant value
  | .member name => by
    rw [compile]
    exact (meets_resolveMember compiler name).bind fun _ hfound => .memberLiteral hfound.1 hfound.2
  | .currentMember name => by
    rw [compile]
    exact (meets_resolveHierarchy compiler name).bind fun _ hh => .currentMember hh
  | .currentValue => by
    rw [compile]
    exact .currentValue
  | .members name => by
    rw [compile]
    exact (meets_resolveHierarchy compiler name).bind fun _ hh => .hierarchyMembers hh
  | .levelMembers name depth => by
    rw [compile]
    refine (meets_resolveHierarchy compiler name).bind fun h hh => ?_
    split
    · exact Failure.isError_error _
    · exact .levelMembers hh depth
  | .children member => by
    rw [compile]
    refine (meets_compile member).bind fun c hc => ?_
    exact (meets_asMember hc).bind fun _ hmember => .memberChildren hmember.1 hmember.2
  | .parent member => by
    rw [compile]
    refine (meets_compile member).bind fun c hc => ?_
    refine (meets_asMember hc).bind fun own hmember => ?_
    exact meets_checked (fits_member rfl hmember.2 rfl) (.memberParent hmember.1 hmember.2)
  | .name member => by
    rw [compile]
    refine (meets_compile member).bind fun c hc => ?_
    exact (meets_asMember hc).bind fun _ hmember => .memberName hmember.1 hmember.2
  | .level member => by
    rw [compile]
    refine (meets_compile member).bind fun c hc => ?_
    exact (meets_asMember hc).bind fun _ hmember => .memberLevel hmember.1 hmember.2
  | .hierarchy member => by
    rw [compile]
    refine (meets_compile member).bind fun c hc => ?_
    exact (meets_asMember hc).bind fun _ hmember => .memberHierarchy hmember.1 hmember.2
  | .tuple members => by
    rw [compile]
    exact (meets_compileAll (fun _ => meets_asMember) members).bind fun _ hmembers =>
      .tupleLiteral (fun c hc => (hmembers c hc).1) fun c hc => (hmembers c hc).2
  | .set elements => by
    rw [compile]
    exact (meets_compileAll (fun _ => meets_asElement) elements).bind fun _ helements =>
      meets_makeSetLiteral (fun c hc => (helements c hc).1) fun c hc => (helements c hc).2
  | .crossJoin left right => by
    rw [compile]
    refine (meets_compile left).bind fun c hc => ?_
    refine (meets_asList hc false).bind fun _ hleft => ?_
    refine (meets_compile right).bind fun d hd => ?_
    exact (meets_asList hd false).bind fun _ hright =>
      .crossJoin hleft.1 hleft.2.1 hleft.2.2 hright.1 hright.2.1 hright.2.2
  | .filter set condition => by
    rw [compile]
    refine (meets_compile set).bind fun c hc => ?_
    refine (meets_asIterable hc).bind fun _ hset => ?_
    refine (meets_compile condition).bind fun d hd => ?_
    refine (meets_asBoolean hd).bind fun _ hcondition => ?_
    exact meets_checked (fits_list rfl hset.2 rfl) (.filter hset.1 hset.2 hcondition.1 hcondition.2)
  | .order set key descending => by
    rw [compile]
    refine (meets_compile set).bind fun c hc => ?_
    refine (meets_asList hc true).bind fun _ hset => ?_
    refine (meets_compile key).bind fun d hd => ?_
    refine (meets_asNumeric hd).bind fun _ hkey => ?_
    exact meets_checked (fits_list rfl hset.2.1 rfl)
      (.order hset.1 hset.2.1 hset.2.2 hkey.1 hkey.2 descending)
  | .aggregate function set value? => by
    rw [compile]
    refine (meets_compileScalar? value?).bind fun value? hvalue => ?_
    refine (meets_compile set).bind fun c hc => ?_
    refine (meets_asIterable hc).bind fun _ hset => ?_
    cases value? with
    | none => exact .aggregate hset.1 hset.2 .currentValue rfl function
    | some value =>
      exact .aggregate hset.1 hset.2 (hvalue value rfl).1 (hvalue value rfl).2 function
  | .count set includeEmpty => by
    rw [compile]
    refine (meets_compile set).bind fun c hc => ?_
    refine (meets_asSet hc).bind fun own hset => ?_
    split
    · next hlist => exact .listCount hset.1 hset.2 (Bool.and_eq_true_iff.mp hlist).2
    · cases includeEmpty with
      | true => exact .walkCount hset.1 hset.2
      | false => exact .aggregate hset.1 hset.2 .currentValue rfl .count
  | .arithmetic op left right => by
    rw [compile]
    refine (meets_compile left).bind fun c hc => ?_
    refine (meets_asNumeric hc).bind fun _ hleft => ?_
    refine (meets_compile right).bind fun d hd => ?_
    exact (meets_asNumeric hd).bind fun _ hright =>
      .arithmetic op hleft.1 hleft.2 hright.1 hright.2
  | .comparison op left right => by
    rw [compile]
    refine (meets_compile left).bind fun c hc => ?_
    refine (meets_asNumeric hc).bind fun _ hleft => ?_
    refine (meets_compile right).bind fun d hd => ?_
    exact (meets_asNumeric hd).bind fun _ hright =>
      .comparison op hleft.1 hleft.2 hright.1 hright.2
  | .and left right => by
    rw [compile]
    refine (meets_compile left).bind fun c hc => ?_
    refine (meets_asBoolean hc).bind fun _ hleft => ?_
    refine (meets_compile right).bind fun d hd => ?_
    exact (meets_asBoolean hd).bind fun _ hright => .and hleft.1 hleft.2 hright.1 hright.2
  | .or left right => by
    rw [compile]
    refine (meets_compile left).bind fun c hc => ?_
    refine (meets_asBoolean hc).bind fun _ hleft => ?_
    refine (meets_compile right).bind fun d hd => ?_
    exact (meets_asBoolean hd).bind fun _ hright => .or hleft.1 hleft.2 hright.1 hright.2
  | .not operand => by
    rw [compile]
    refine (meets_compile operand).bind fun c hc => ?_
    exact (meets_asBoolean hc).bind fun _ hoperand => .not hoperand.1 hoperand.2
  | .iif condition thenExp elseExp => by
    rw [compile]
    refine (meets_compile condition).bind fun c hc => ?_
    refine (meets_asBoolean hc).bind fun _ hcondition => ?_
    refine (meets_compile thenExp).bind fun d hd => ?_
    refine (meets_asScalar hd).bind fun _ hthen => ?_
    refine (meets_compile elseExp).bind fun e he => ?_
    exact (meets_asScalar he).bind fun _ helse =>
      .iif hcondition.1 hcondition.2 hthen.1 hthen.2 helse.1 helse.2

theorem meets_compileAll {demand : Calc → Outcome Calc} {P : Calc → Prop}
    (hdemand : ∀ c, compiler.Makes c → Meets P Failure.IsError (demand c)) :
    ∀ exps : List Exp, Meets (fun calcs => ∀ c ∈ calcs, P c) Failure.IsError
      (compiler.compileAll demand exps)
  | [] => by
    rw [compileAll]
    exact fun c hc => absurd hc List.not_mem_nil
  | exp :: rest => by
    rw [compileAll]
    refine (meets_compile exp).bind fun c hc => ?_
    refine (hdemand c hc).bind fun own hown => ?_
    refine (meets_compileAll hdemand rest).bind fun calcs hcalcs => ?_
    exact List.forall_mem_cons.mpr ⟨hown, hcalcs⟩

theorem meets_compileScalar? :
    ∀ exp? : Option Exp, Meets (fun c? => ∀ c, c? = some c →
      compiler.Makes c ∧ c.type.isScalar = true) Failure.IsError (compiler.compileScalar? exp?)
  | none => by
    rw [compileScalar?]
    exact fun c hc => absurd hc (by simp)
  | some exp => by
    rw [compileScalar?]
    refine (meets_compile exp).bind fun c hc => ?_
    refine (meets_asScalar hc).bind fun own hown => ?_
    rintro _ ⟨rfl⟩
    exact hown

end

end Compiler

end CubeCalc
