import CubeCalc.Proofs.Constants
import CubeCalc.Proofs.PlanText
import CubeCalc.Proofs.Safety
/-!
# Labels of plans

What a plan shows of a calc is put together from fixed words, from numbers, from the unique names of
a cube and, for a constant, from its value. Of these only names and texts can have a line feed. So
the text of a plan goes with its tree line by line where they have none.
-/

namespace CubeCalc

/-! ### Texts on one line -/

namespace Text

variable {s t : String}

theorem isLine_append : IsLine (s ++ t) ↔ IsLine s ∧ IsLine t := by
  rw [IsLine, String.toList_append, List.mem_append, not_or]
  rfl

theorem isLine_ofList {x : List Char} : IsLine (String.ofList x) ↔ '\n' ∉ x := by
  rw [IsLine, String.toList_ofList]

theorem isLine_intercalate {ls : List String} (hs : IsLine s) (hls : ∀ l ∈ ls, IsLine l) :
    IsLine (s.intercalate ls) := by
  induction ls with
  | nil =>
    rw [String.intercalate_nil]
    decide
  | cons l rest ih =>
    rw [List.forall_mem_cons] at hls
    by_cases hrest : rest = []
    · rw [hrest, String.intercalate_singleton]
      exact hls.1
    · rw [String.intercalate_cons_of_ne_nil hrest, isLine_append, isLine_append]
      exact ⟨⟨hls.1, hs⟩, ih hls.2⟩

theorem isLine_toString (n : Nat) : IsLine (toString n) := by
  intro hfeed
  rw [Nat.toString_eq_repr, Nat.toList_repr] at hfeed
  exact absurd (Nat.isDigit_of_mem_toDigits (by decide) (by decide) hfeed) (by decide)

end Text

namespace Decimal

open Text

variable {digits : List Char} {mark : String}

theorem isLine_pointed (hdigits : '\n' ∉ digits) (hmark : IsLine mark) (lead : Int) :
    IsLine (pointed digits lead mark) := by
  have hzeros : ∀ n, '\n' ∉ List.replicate n '0' := fun n hfeed =>
    absurd (List.eq_of_mem_replicate hfeed) (by decide)
  rw [pointed]
  split
  · rw [isLine_append, isLine_ofList (x := _ ++ _), List.mem_append, not_or]
    exact ⟨by decide, hzeros _, hdigits⟩
  · split
    · rw [isLine_append, isLine_ofList, List.mem_append, not_or]
      exact ⟨⟨hdigits, hzeros _⟩, hmark⟩
    · simp only [isLine_append, isLine_ofList]
      exact ⟨⟨fun hfeed => hdigits (List.mem_of_mem_take hfeed), by decide⟩,
        fun hfeed => hdigits (List.mem_of_mem_drop hfeed)⟩

theorem isLine_withExponent (hdigits : '\n' ∉ digits) (exponent : Int) :
    IsLine (withExponent digits exponent) := by
  have hpoint : ∀ b : Bool, IsLine (if b then "" else ".") := by decide
  have hsign : IsLine (if exponent < 0 then "-" else "+") := by split <;> decide
  simp only [withExponent, isLine_append, isLine_ofList]
  exact ⟨⟨⟨⟨⟨fun hfeed => hdigits (List.mem_of_mem_take hfeed), hpoint _⟩,
    fun hfeed => hdigits (List.mem_of_mem_drop hfeed)⟩, by decide⟩, hsign⟩, isLine_toString _⟩

theorem isLine_render {layout : Layout} (hmark : IsLine layout.wholeMark) (x : Float) :
    IsLine (layout.render x) := by
  rw [Layout.render, isLine_append]
  constructor
  · split <;> decide
  · simp only [Layout.renderMagnitude]
    split
    · exact isLine_append.mpr ⟨by decide, hmark⟩
    · split
      · exact isLine_pointed (isLine_toString _) hmark _
      · exact isLine_withExponent (isLine_toString _) _

end Decimal

/-! ### Arguments -/

namespace Arguments

open Text

variable {entry : String × Json} {entries : List (String × Json)}

theorem mem_of_mem_setEntry {key : String} {value : Json}
    (hentry : entry ∈ setEntry key value entries) : entry = (key, value) ∨ entry ∈ entries := by
  induction entries with
  | nil => exact .inl (List.mem_singleton.mp hentry)
  | cons first rest ih =>
    rw [setEntry] at hentry
    split at hentry
    · next heq =>
      rcases List.mem_cons.mp hentry with rfl | hrest
      · exact .inl (by rw [heq])
      · exact .inr (List.mem_cons_of_mem _ hrest)
    · rcases List.mem_cons.mp hentry with rfl | hrest
      · exact .inr List.mem_cons_self
      · exact (ih hrest).imp_right (List.mem_cons_of_mem _)

theorem mem_of_mem_setAll {args : Arguments} (hentry : entry ∈ (args.setAll entries).entries) :
    entry ∈ args.entries ∨ entry ∈ entries := by
  induction entries generalizing args with
  | nil => exact .inl hentry
  | cons first rest ih =>
    rcases ih hentry with hset | hrest
    · rcases mem_of_mem_setEntry hset with rfl | hold
      · exact .inr List.mem_cons_self
      · exact .inl hold
    · exact .inr (List.mem_cons_of_mem _ hrest)

theorem isLine_singleton {key : String} {value : Json} (hkey : IsLine key)
    (hvalue : IsLine (valueText value)) :
    ∀ entry ∈ [(key, value)], IsLine entry.1 ∧ IsLine (valueText entry.2) :=
  List.forall_mem_singleton.mpr ⟨hkey, hvalue⟩

theorem isLine_display {args : Arguments}
    (hargs : ∀ entry ∈ args.entries, IsLine entry.1 ∧ IsLine (valueText entry.2)) :
    IsLine args.display := by
  refine isLine_intercalate (by decide) (List.forall_mem_map.mpr fun entry hentry => ?_)
  rw [isLine_append, isLine_append]
  exact ⟨⟨(hargs entry hentry).1, by decide⟩, (hargs entry hentry).2⟩

end Arguments

/-! ### Plain cubes and expressions -/

/-- No name has a line feed. -/
structure Cube.IsPlain (cube : Cube) : Prop where
  hierarchies : ∀ h ∈ cube.hierarchies, Text.IsLine h.uniqueName
  members : ∀ h ∈ cube.hierarchies, ∀ m ∈ h.members, Text.IsLine m.uniqueName
  levels : ∀ h ∈ cube.hierarchies, ∀ level ∈ h.levels, Text.IsLine level.uniqueName

namespace Literal

def IsPlain : Literal → Prop
  | .string s => Text.IsLine s
  | _ => True

theorem isLine_valueText {value : Literal} (hvalue : value.IsPlain) :
    Text.IsLine (Arguments.valueText value.toValue.toJson) := by
  cases value with
  | null => decide
  | boolean b => cases b <;> decide
  | string s => exact hvalue
  | number x =>
    change Text.IsLine (Arguments.valueText (Json.ofFloat (Double.ofFloat x).toFloat))
    rw [Json.ofFloat]
    by_cases hx : (Double.ofFloat x).toFloat.isFinite = true
    · rw [if_pos hx]
      change Text.IsLine (Json.floatText (Double.ofFloat x).toFloat)
      rw [Json.floatText, if_pos hx]
      exact Decimal.isLine_render (by decide) _
    · rw [if_neg hx]
      decide

end Literal

def Exp.IsPlain (exp : Exp) : Prop := ∀ value ∈ exp.literals, value.IsPlain

namespace StaticType

open Text

variable {type : StaticType} {types : List StaticType} {h : Hierarchy}

/-- A type that names a hierarchy behind its word. -/
theorem isLine_named (word : String) (hword : IsLine word) (hh : IsLine h.uniqueName) :
    IsLine (word ++ hierarchyLabel (some h)) := by
  rw [isLine_append, hierarchyLabel, isLine_append, isLine_append]
  exact ⟨hword, ⟨by decide, hh⟩, by decide⟩

theorem isLine_scalar (htype : type.isScalar = true) : IsLine type.display := by
  cases type with
  | boolean | numeric | string | scalar | null => decide
  | _ => cases htype

theorem isLine_set (htype : IsLine type.display) : IsLine (set type).display :=
  isLine_append.mpr ⟨isLine_append.mpr ⟨by decide, htype⟩, by decide⟩

theorem isLine_displayColumns (htypes : ∀ type ∈ types, IsLine type.display) :
    IsLine (displayColumns types) := by
  induction types with
  | nil => decide
  | cons type rest ih =>
    rw [List.forall_mem_cons] at htypes
    cases rest with
    | nil => exact htypes.1
    | cons other rest =>
      exact isLine_append.mpr ⟨isLine_append.mpr ⟨htypes.1, by decide⟩, ih htypes.2⟩

theorem isLine_tuple (htypes : ∀ type ∈ types, IsLine type.display) :
    IsLine (tuple types).display :=
  isLine_append.mpr ⟨isLine_append.mpr ⟨by decide, isLine_displayColumns htypes⟩, by decide⟩

end StaticType

/-! ### Compiled calcs -/

namespace Calc.Formed

open Text

variable {cube : Cube} {config : CalcConfig} {c : Calc} {h : Hierarchy}

theorem isLine_name (hc : Formed cube config c) : IsLine c.name := by
  induction hc with
  | packedList _ _ _ ih | copiedList _ _ _ ih => exact ih
  | aggregate _ _ _ _ function => cases function <;> simp [name, AggregateFunction.name, IsLine]
  | arithmetic op => cases op <;> simp [name, ArithmeticOp.symbol, IsLine]
  | comparison op => cases op <;> simp [name, ComparisonOp.symbol, IsLine]
  | _ => simp [name, IsLine]

theorem className_shown (hc : Formed cube config c) :
    IsLine c.className ∧ c.className.toList.head? ≠ some ' ' := by
  cases hc <;> simp [className, IsLine]

theorem isLine_type (hcube : cube.IsPlain) (hc : Formed cube config c) :
    IsLine c.type.display := by
  have hmember : ∀ h ∈ cube.hierarchies, IsLine (StaticType.ofHierarchy h).display := fun h hh =>
    StaticType.isLine_named "MemberType" (by decide) (hcube.hierarchies h hh)
  induction hc with
  | constant value => exact StaticType.isLine_scalar (by cases value <;> rfl)
  | currentMember hh | memberLiteral hh => exact hmember _ hh
  | tupleLiteral _ _ ih =>
    rw [type_tupleLiteral]
    exact StaticType.isLine_tuple (List.forall_mem_map.mpr ih)
  | @memberLevel member hform hisMember =>
    obtain ⟨h, hh, htype⟩ := hform.admits.eq_ofHierarchy hisMember
    change IsLine (StaticType.level member.type.memberHierarchy?).display
    rw [htype]
    exact StaticType.isLine_named "LevelType" (by decide) (hcube.hierarchies h hh)
  | @memberHierarchy member hform hisMember =>
    obtain ⟨h, hh, htype⟩ := hform.admits.eq_ofHierarchy hisMember
    change IsLine (StaticType.hierarchy member.type.memberHierarchy?).display
    rw [htype]
    exact StaticType.isLine_named "HierarchyType" (by decide) (hcube.hierarchies h hh)
  | hierarchyMembers hh | levelMembers hh => exact StaticType.isLine_set (hmember _ hh)
  | memberChildren _ _ ih => exact StaticType.isLine_set ih
  | setLiteral hfirst _ _ _ ih =>
    rw [type_setLiteral hfirst]
    exact StaticType.isLine_set (ih _ (List.mem_of_head? hfirst))
  | @crossJoin left right hleft hleftType _ hright hrightType _ =>
    have hcolumns : ∀ {set : Calc}, Formed cube config set → set.type.isSet = true →
        ∀ column ∈ set.type.columns, IsLine column.display := by
      intro set hform hisSet
      rw [hform.admits.columns_eq hisSet, List.forall_mem_map]
      exact fun h hh => hmember h (hform.admits.spans_mem h hh)
    exact StaticType.isLine_set (StaticType.isLine_tuple (List.forall_mem_append.mpr
      ⟨hcolumns hleft hleftType, hcolumns hright hrightType⟩))
  | memberParent _ _ ih | packedList _ _ _ ih | copiedList _ _ _ ih => exact ih
  | filter _ _ _ _ ih | order _ _ _ _ _ _ ih | iif _ _ _ _ _ _ _ ih => exact ih
  | effect => exact (by decide : IsLine StaticType.void.display)
  | _ => exact StaticType.isLine_scalar rfl

theorem isLine_levelLabel (hcube : cube.IsPlain) (hh : h ∈ cube.hierarchies) (depth : Nat) :
    IsLine (levelLabel h depth) := by
  rw [levelLabel]
  split
  · next level hlevel => exact hcube.levels h hh level (List.mem_of_find?_eq_some hlevel)
  · rw [isLine_append, isLine_append, isLine_append]
    exact ⟨⟨⟨hcube.hierarchies h hh, by decide⟩, isLine_toString depth⟩, by decide⟩

theorem isLine_ownArguments (hcube : cube.IsPlain) (hc : Formed cube config c)
    (hconstants : ∀ value ∈ c.constants, IsLine (Arguments.valueText value.toJson)) :
    ∀ entry ∈ c.ownArguments, IsLine entry.1 ∧ IsLine (Arguments.valueText entry.2) := by
  cases hc with
  | constant value =>
    exact Arguments.isLine_singleton (by decide) (hconstants _ List.mem_cons_self)
  | currentMember hh | hierarchyMembers hh =>
    exact Arguments.isLine_singleton (by decide) (hcube.hierarchies _ hh)
  | memberLiteral hh hm =>
    exact Arguments.isLine_singleton (by decide) (hcube.members _ hh _ hm)
  | levelMembers hh depth =>
    exact Arguments.isLine_singleton (by decide) (isLine_levelLabel hcube hh depth)
  | order _ _ _ _ _ descending =>
    exact Arguments.isLine_singleton (by decide) (by cases descending <;> decide)
  | aggregate _ _ _ _ function =>
    exact Arguments.isLine_singleton (by decide) (by cases function <;> decide)
  | walkCount => exact Arguments.isLine_singleton (by decide) (by decide)
  | _ => exact nofun

theorem isLine_arguments (hcube : cube.IsPlain) (hc : Formed cube config c)
    (hconstants : ∀ value ∈ c.constants, IsLine (Arguments.valueText value.toJson)) :
    IsLine c.arguments.display := by
  have hstyle : IsLine c.style.name := by cases c.style <;> decide
  refine Arguments.isLine_display fun entry hentry => ?_
  rcases Arguments.mem_of_mem_setAll hentry with hnone | hlisted
  · cases hnone
  · rcases List.mem_append.mp hlisted with hdeclared | hown
    · simp only [List.mem_cons, List.not_mem_nil, or_false] at hdeclared
      rcases hdeclared with rfl | rfl | rfl | rfl
      · exact ⟨(by decide : IsLine "name"), hc.isLine_name⟩
      · exact ⟨(by decide : IsLine "class"), hc.className_shown.1⟩
      · exact ⟨(by decide : IsLine "type"), hc.isLine_type hcube⟩
      · exact ⟨(by decide : IsLine "resultStyle"), hstyle⟩
    · exact hc.isLine_ownArguments hcube hconstants entry hown

/-- Over plain names, labels are on one line if the constants of a calc are. -/
theorem isLine_labels (hcube : cube.IsPlain) (hc : Formed cube config c)
    (hconstants : ∀ value ∈ c.constants, IsLine (Arguments.valueText value.toJson)) (depth : Nat) :
    ∀ entry ∈ c.plan.entries depth, IsLine entry.label := by
  induction c using children_induction generalizing depth with
  | step c ih =>
    rw [entries_plan, List.forall_mem_cons]
    constructor
    · rw [PlanEntry.label, isLine_append, isLine_append, isLine_append]
      exact ⟨⟨⟨hc.className_shown.1, by decide⟩, hc.isLine_arguments hcube hconstants⟩, by decide⟩
    · intro entry hentry
      obtain ⟨child, hchild, hbelow⟩ := List.mem_flatMap.mp hentry
      exact ih child hchild (hc.of_mem_children hchild)
        (fun value hvalue => hconstants value (constants_subset hchild hvalue)) _ entry hbelow

theorem head?_names (hc : Formed cube config c) (depth : Nat) :
    ∀ entry ∈ c.plan.entries depth, entry.name.toList.head? ≠ some ' ' := by
  induction c using children_induction generalizing depth with
  | step c ih =>
    rw [entries_plan, List.forall_mem_cons]
    refine ⟨hc.className_shown.2, fun entry hentry => ?_⟩
    obtain ⟨child, hchild, hbelow⟩ := List.mem_flatMap.mp hentry
    exact ih child hchild (hc.of_mem_children hchild) _ entry hbelow

end Calc.Formed

/-! ### All plans of a compiler -/

namespace Compiler

variable {compiler : Compiler} {exp : Exp} {c : Calc}

/-- The constants of whatever is made for an expression are among its literals. -/
theorem Obtains.constants_subset (hc : compiler.Obtains exp c) :
    c.constants ⊆ exp.literals.map Literal.toValue := by
  induction hc with
  | answered hc =>
    rw [(compiler.constants_answer exp _).of_ok hc]
    exact List.Subset.refl _
  | @adapted c own styles _ hown ih =>
    have hkept : own.constants = c.constants := (c.keeps_adapt styles _).of_ok hown
    rwa [hkept]
  | part _ hchild ih => exact fun value hvalue => ih (Calc.constants_subset hchild hvalue)

/-- The text of a plan lists the calcs of the plan from the top down, each ended by a line feed. It
has as many lines as the plan has calcs just if no label has a line feed, and then its lines are
those of the calcs and show the whole tree. There is no such label for an expression whose texts
have no line feed over a cube whose names have none. -/
theorem text_lists_plan (hc : compiler.Obtains exp c) :
    c.explain = Text.unlines ((c.plan.entries 0).map PlanEntry.line) ∧
    (c.plan.entries 0).length = c.plan.size ∧
    ((Text.lines c.explain).length = c.plan.size ↔
      ∀ entry ∈ c.plan.entries 0, Text.IsLine entry.label) ∧
    ((∀ entry ∈ c.plan.entries 0, Text.IsLine entry.label) →
      Text.lines c.explain = (c.plan.entries 0).map PlanEntry.line ∧
      Outline.ofLines (Text.lines c.explain) = [c.plan.outline]) ∧
    (compiler.cube.IsPlain → exp.IsPlain →
      ∀ entry ∈ c.plan.entries 0, Text.IsLine entry.label) := by
  refine ⟨c.explain_eq_unlines, c.plan.length_entries 0, Calc.length_lines_explain_eq_iff,
    fun hlabels => ?_, fun hcube hexp => hc.makes.isLine_labels hcube (fun value hvalue => ?_) 0⟩
  · have hlines := Calc.lines_explain hlabels
    refine ⟨hlines, ?_⟩
    rw [hlines]
    exact Outline.ofLines_lines (hc.makes.head?_names 0)
  · obtain ⟨literal, hliteral, rfl⟩ := List.mem_map.mp (hc.constants_subset hvalue)
    exact Literal.isLine_valueText (hexp literal hliteral)

end Compiler

namespace Sales

theorem yearlyTowns_listed : (Compiler.mk .sales {}).Obtains yearlyTowns yearlyTownsCalc ∧
    Cube.sales.IsPlain ∧ yearlyTowns.IsPlain ∧
    Text.lines yearlyTownsCalc.explain = (yearlyTownsCalc.plan.entries 0).map PlanEntry.line ∧
    Outline.ofLines (Text.lines yearlyTownsCalc.explain) = [yearlyTownsCalc.plan.outline] := by
  have hobtained : (Compiler.mk .sales {}).Obtains yearlyTowns yearlyTownsCalc := by
    have hanswer : (Compiler.mk .sales {}).answer yearlyTowns .natural = .ok yearlyTownsCalc := rfl
    exact .answered hanswer
  have hcube : Cube.sales.IsPlain := ⟨by decide, by decide, by decide⟩
  have hexp : yearlyTowns.IsPlain := nofun
  obtain ⟨-, -, -, hshown, hplain⟩ := Compiler.text_lists_plan hobtained
  exact ⟨hobtained, hcube, hexp, hshown (hplain hcube hexp)⟩

/-- A text with a line feed takes two lines. -/
theorem brokenText_torn : ∃ c,
    (Compiler.mk .sales {}).Obtains (.string "two\nlines") c ∧ c.plan.size = 1 ∧
      (Text.lines c.explain).length = 2 := by
  have hanswer : (Compiler.mk .sales {}).answer (.string "two\nlines") .natural =
    .ok (.constant (.string "two\nlines")) := rfl
  exact ⟨_, .answered hanswer, rfl, by decide⟩

end Sales

end CubeCalc
