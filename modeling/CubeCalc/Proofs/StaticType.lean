import CubeCalc.Proofs.Cube
import CubeCalc.StaticType
/-!
# Types of a cube's expressions

Where the type of an expression over a cube speaks of members it names their spans, column by
column. All that such a type says of a hierarchy can be read off these columns.
-/

namespace CubeCalc

namespace StaticType

/-- The hierarchies of the columns of a member, of a tuple or of a set's elements. -/
def spans : StaticType → List Hierarchy
  | .member hierarchy? => hierarchy?.toList
  | .tuple columns => columns.filterMap memberHierarchy?
  | .set element => element.spans
  | _ => []

def hasColumns (type : StaticType) : Bool := type.isMember || type.isTuple || type.isSet

def ofHierarchy (h : Hierarchy) : StaticType := .member (some h)

theorem filterMap_ofHierarchy (hs : List Hierarchy) :
    (hs.map ofHierarchy).filterMap memberHierarchy? = hs := by
  induction hs with
  | nil => rfl
  | cons h rest ih => simp [ofHierarchy, memberHierarchy?, ih]

theorem mem_spans_tuple {types : List StaticType} {type : StaticType} {h : Hierarchy}
    (htype : type ∈ types) (hmember : type.isMember = true) (hh : h ∈ type.spans) :
    h ∈ (tuple types).spans := by
  cases type <;> simp [isMember] at hmember
  refine List.mem_filterMap.mpr ⟨_, htype, ?_⟩
  exact Option.mem_toList.mp hh

end StaticType

/-- The types that a cube's expressions have. -/
inductive Cube.Admits (cube : Cube) : StaticType → Prop where
  | scalar {type : StaticType} (htype : type.isScalar = true) : Admits cube type
  | void : Admits cube .void
  | level (hierarchy? : Option Hierarchy) : Admits cube (.level hierarchy?)
  | hierarchy (hierarchy? : Option Hierarchy) : Admits cube (.hierarchy hierarchy?)
  | member {h : Hierarchy} (hh : h ∈ cube.hierarchies) : Admits cube (.ofHierarchy h)
  | tuple {hs : List Hierarchy} (hhs : ∀ h ∈ hs, h ∈ cube.hierarchies) :
    Admits cube (.tuple (hs.map .ofHierarchy))
  | setOfMembers {h : Hierarchy} (hh : h ∈ cube.hierarchies) : Admits cube (.set (.ofHierarchy h))
  | setOfTuples {hs : List Hierarchy} (hhs : ∀ h ∈ hs, h ∈ cube.hierarchies) :
    Admits cube (.set (.tuple (hs.map .ofHierarchy)))

namespace Cube.Admits

open StaticType

variable {cube : Cube} {type : StaticType} {h : Hierarchy}

theorem spans_mem (htype : cube.Admits type) : ∀ h ∈ type.spans, h ∈ cube.hierarchies := by
  cases htype with
  | scalar htype => cases type <;> simp_all [isScalar, spans]
  | void | level | hierarchy => simp [spans]
  | member hh | setOfMembers hh => simpa [spans, ofHierarchy] using hh
  | tuple hhs | setOfTuples hhs => simpa only [spans, filterMap_ofHierarchy] using hhs

theorem arity_eq (htype : cube.Admits type) : type.arity = type.spans.length := by
  cases htype with
  | scalar htype => cases type <;> simp_all [isScalar, spans, arity]
  | void | level | hierarchy => simp [spans, arity]
  | member hh | setOfMembers hh => simp [spans, ofHierarchy, arity]
  | tuple hhs | setOfTuples hhs =>
    simp only [spans, filterMap_ofHierarchy, arity, List.length_map]

theorem eq_ofHierarchy (htype : cube.Admits type) (hmember : type.isMember = true) :
    ∃ h ∈ cube.hierarchies, type = ofHierarchy h := by
  cases htype with
  | scalar htype => cases type <;> simp_all [isScalar, isMember]
  | void | level | hierarchy | tuple | setOfMembers | setOfTuples => simp [isMember] at hmember
  | @member h hh => exact ⟨h, hh, rfl⟩

theorem eq_emptyTuple (htype : cube.Admits type) (helement : (type.isMember || type.isTuple) = true)
    (hspans : type.spans = []) : type = .tuple [] := by
  cases htype with
  | scalar htype => cases type <;> simp_all [isScalar, isMember, isTuple]
  | void | level | hierarchy | setOfMembers | setOfTuples => simp [isMember, isTuple] at helement
  | member hh => simp [spans, ofHierarchy] at hspans
  | tuple hhs =>
    rw [spans, filterMap_ofHierarchy] at hspans
    rw [hspans, List.map_nil]

theorem exists_columns :
    ∀ {types : List StaticType}, (∀ t ∈ types, cube.Admits t) → (∀ t ∈ types, t.isMember = true) →
      ∃ hs : List Hierarchy, (∀ h ∈ hs, h ∈ cube.hierarchies) ∧ types = hs.map ofHierarchy
  | [], _, _ => ⟨[], by simp, rfl⟩
  | type :: rest, htypes, hmembers => by
    rw [List.forall_mem_cons] at htypes hmembers
    obtain ⟨h, hh, rfl⟩ := htypes.1.eq_ofHierarchy hmembers.1
    obtain ⟨hs, hhs, rfl⟩ := exists_columns htypes.2 hmembers.2
    exact ⟨h :: hs, List.forall_mem_cons.mpr ⟨hh, hhs⟩, rfl⟩

theorem set (htype : cube.Admits type) (helement : (type.isMember || type.isTuple) = true) :
    cube.Admits (.set type) := by
  cases htype with
  | scalar htype => cases type <;> simp_all [isScalar, isMember, isTuple]
  | void | level | hierarchy | setOfMembers | setOfTuples => simp [isMember, isTuple] at helement
  | member hh => exact .setOfMembers hh
  | tuple hhs => exact .setOfTuples hhs

theorem anyUsesHierarchy_map (definitely : Bool) (hs : List Hierarchy) :
    anyUsesHierarchy h definitely (hs.map ofHierarchy) = hs.any (· == h) := by
  induction hs with
  | nil => rfl
  | cons own rest ih => simp [anyUsesHierarchy, ofHierarchy, usesHierarchy, ih]

/-- Where there are columns, a type spans the hierarchies of its columns for certain, and no others
at all. -/
theorem usesHierarchy_eq (htype : cube.Admits type) (hcolumns : type.hasColumns = true)
    (definitely : Bool) : type.usesHierarchy h definitely = type.spans.any (· == h) := by
  cases htype with
  | scalar htype => cases type <;> simp_all [isScalar, hasColumns, isMember, isTuple, isSet]
  | void | level | hierarchy => simp [hasColumns, isMember, isTuple, isSet] at hcolumns
  | member hh | setOfMembers hh => simp [spans, ofHierarchy, usesHierarchy]
  | tuple hhs | setOfTuples hhs =>
    simp only [spans, filterMap_ofHierarchy, usesHierarchy, anyUsesHierarchy_map]

/-- A hierarchy of a sound cube is spanned if it is the hierarchy of a column. -/
theorem usesHierarchy_iff (hcube : cube.IsSound) (htype : cube.Admits type)
    (hcolumns : type.hasColumns = true) (definitely : Bool) (hh : h ∈ cube.hierarchies) :
    type.usesHierarchy h definitely = true ↔ h ∈ type.spans := by
  rw [htype.usesHierarchy_eq hcolumns definitely, List.any_eq_true]
  constructor
  · rintro ⟨own, hown, heq⟩
    have hname := Hierarchy.beq_iff_name_eq.mp heq
    exact hcube.eq_of_name_eq (htype.spans_mem own hown) hh hname ▸ hown
  · intro hmem
    exact ⟨h, hmem, Hierarchy.beq_iff_name_eq.mpr rfl⟩

theorem columns_eq (htype : cube.Admits type) (hset : type.isSet = true) :
    type.columns = type.spans.map ofHierarchy := by
  cases htype with
  | scalar htype => cases type <;> simp_all [isScalar, isSet]
  | void | level | hierarchy | member | tuple => simp [isSet, ofHierarchy] at hset
  | setOfMembers hh => simp [columns, spans, ofHierarchy]
  | setOfTuples hhs => simp only [columns, spans, filterMap_ofHierarchy]

theorem product (htype : cube.Admits type) (hset : type.isSet = true) {other : StaticType}
    (hother : cube.Admits other) (hotherSet : other.isSet = true) :
    cube.Admits (.set (.tuple (type.columns ++ other.columns))) := by
  rw [htype.columns_eq hset, hother.columns_eq hotherSet, ← List.map_append]
  refine .setOfTuples fun h hh => ?_
  rcases List.mem_append.mp hh with hl | hr
  · exact htype.spans_mem h hl
  · exact hother.spans_mem h hr

theorem spans_product (htype : cube.Admits type) (hset : type.isSet = true) {other : StaticType}
    (hother : cube.Admits other) (hotherSet : other.isSet = true) :
    (StaticType.set (.tuple (type.columns ++ other.columns))).spans =
      type.spans ++ other.spans := by
  rw [htype.columns_eq hset, hother.columns_eq hotherSet, ← List.map_append]
  exact filterMap_ofHierarchy _

theorem eq_of_allEqual (hcube : cube.IsSound) :
    ∀ {as bs : List Hierarchy}, (∀ h ∈ as, h ∈ cube.hierarchies) →
      (∀ h ∈ bs, h ∈ cube.hierarchies) →
        allEqual (as.map ofHierarchy) (bs.map ofHierarchy) = true → as = bs
  | [], [], _, _, _ => rfl
  | [], _ :: _, _, _, hequal | _ :: _, [], _, _, hequal => by simp [allEqual] at hequal
  | a :: as, b :: bs, has, hbs, hequal => by
    simp only [List.map_cons, allEqual, Bool.and_eq_true] at hequal
    have hname := Hierarchy.beq_iff_name_eq.mp hequal.1
    rw [List.forall_mem_cons] at has hbs
    rw [hcube.eq_of_name_eq has.1 hbs.1 hname, eq_of_allEqual hcube has.2 hbs.2 hequal.2]

/-- Types of elements that are equal have the same columns. -/
theorem spans_eq_of_beq (hcube : cube.IsSound) {other : StaticType} (htype : cube.Admits type)
    (hother : cube.Admits other) (helement : (type.isMember || type.isTuple) = true)
    (hequal : (type == other) = true) : type.spans = other.spans := by
  replace hequal : type.equals other = true := hequal
  cases htype with
  | scalar htype => cases type <;> simp_all [isScalar, isMember, isTuple]
  | void | level | hierarchy | setOfMembers | setOfTuples => simp [isMember, isTuple] at helement
  | @member a ha =>
    cases hother with
    | @member b hb =>
      have hname : a.name = b.name := by
        simpa [equals, ofHierarchy, Hierarchy.beq_iff_name_eq] using hequal
      rw [hcube.eq_of_name_eq ha hb hname]
    | scalar hscalar => cases other <;> simp_all [isScalar, equals, ofHierarchy]
    | _ => simp [equals, ofHierarchy] at hequal
  | @tuple as has =>
    cases hother with
    | @tuple bs hbs =>
      rw [equals] at hequal
      rw [eq_of_allEqual hcube has hbs hequal]
    | scalar hscalar => cases other <;> simp_all [isScalar, equals]
    | _ => simp [equals, ofHierarchy] at hequal

end Cube.Admits

end CubeCalc
