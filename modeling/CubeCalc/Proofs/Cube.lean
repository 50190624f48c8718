import CubeCalc.Cube
import CubeCalc.Hierarchy.Builder
import Mathlib.Data.List.Nodup
import Mathlib.Tactic.Common
/-!
# Sound cubes

A closed hierarchy is made of its own members: they go by its name, their parents are among them,
and so is the default. That is what a builder makes if it is handed its own members only. In a sound
cube all hierarchies are closed and no two go by one name, so that a name has one position.
-/

namespace CubeCalc

/-! ### Closed hierarchies -/

structure Hierarchy.IsClosed (h : Hierarchy) : Prop where
  hierarchy_eq : ∀ m ∈ h.members, m.hierarchy = h.name
  parent_mem : ∀ m ∈ h.members, ∀ parent, m.parent? = some parent → parent ∈ h.members
  default_mem : h.defaultMember ∈ h.members

namespace HierarchyBuilder

/-- A builder that has only been handed members of its own, as parents and as the default. -/
inductive Own : HierarchyBuilder → Prop where
  | withoutAll (name : String) : Own (withoutAll name)
  | withAll (name : String) : Own (withAll name)
  | measures : Own measures
  | setDimension {b : HierarchyBuilder} (hb : Own b) (dimension : String) :
    Own (b.setDimension dimension)
  | setLevels {b : HierarchyBuilder} (hb : Own b) (names : List String) : Own (b.setLevels names)
  | addMember {b : HierarchyBuilder} (hb : Own b) {parent? : Option Member}
    (hparent : ∀ parent, parent? = some parent → parent ∈ b.members) (name : String) :
    Own (b.addMember parent? name)
  | setDefault {b : HierarchyBuilder} (hb : Own b) {m : Member} (hm : m ∈ b.members) :
    Own (b.setDefault m)

/-- What such a builder keeps. -/
structure Keeps (b : HierarchyBuilder) : Prop where
  hierarchy_eq : ∀ m ∈ b.members, m.hierarchy = b.name
  parent_mem : ∀ m ∈ b.members, ∀ parent, m.parent? = some parent → parent ∈ b.members
  all_mem : ∀ m, b.allMember? = some m → m ∈ b.members
  default_mem : ∀ m, b.defaultMember? = some m → m ∈ b.members

theorem label_under (parent? : Option Member) (label : MemberLabel) :
    (Member.under parent? label).label = label := by
  cases parent? <;> rfl

theorem parent?_under (parent? : Option Member) (label : MemberLabel) :
    (Member.under parent? label).parent? = parent? := by
  cases parent? <;> rfl

theorem Keeps.addMember {b : HierarchyBuilder} (hb : b.Keeps) {parent? : Option Member}
    (hparent : ∀ parent, parent? = some parent → parent ∈ b.members) (name : String) :
    (b.addMember parent? name).Keeps where
  hierarchy_eq m hm := by
    rcases List.mem_append.mp hm with hold | hnew
    · exact hb.hierarchy_eq m hold
    · rw [List.mem_singleton.mp hnew]
      simp [nextMember, Member.hierarchy, label_under, HierarchyBuilder.addMember]
  parent_mem m hm parent hmp := by
    apply List.mem_append_left
    rcases List.mem_append.mp hm with hold | hnew
    · exact hb.parent_mem m hold parent hmp
    · rw [List.mem_singleton.mp hnew, nextMember, parent?_under] at hmp
      cases hcase : parent? with
      | some own => exact hparent parent (by simpa [hcase] using hmp)
      | none => exact hb.all_mem parent (by simpa [hcase] using hmp)
  all_mem m hm := List.mem_append_left _ (hb.all_mem m hm)
  default_mem m hm := List.mem_append_left _ (hb.default_mem m hm)

theorem Own.keeps {b : HierarchyBuilder} (hb : b.Own) : b.Keeps := by
  induction hb with
  | withoutAll name => constructor <;> simp [HierarchyBuilder.withoutAll]
  | withAll name =>
    constructor <;>
      simp [HierarchyBuilder.withAll, HierarchyBuilder.withoutAll, Member.all, Member.hierarchy,
        Member.label, Member.parent?]
  | measures => constructor <;> simp [HierarchyBuilder.measures, HierarchyBuilder.withoutAll]
  | setDimension _ _ ih => exact ⟨ih.hierarchy_eq, ih.parent_mem, ih.all_mem, ih.default_mem⟩
  | setLevels _ _ ih => exact ⟨ih.hierarchy_eq, ih.parent_mem, ih.all_mem, ih.default_mem⟩
  | addMember _ hparent name ih => exact ih.addMember hparent name
  | setDefault _ hm ih =>
    refine ⟨ih.hierarchy_eq, ih.parent_mem, ih.all_mem, fun m hdefault => ?_⟩
    obtain rfl : _ = m := by simpa [HierarchyBuilder.setDefault] using hdefault
    exact hm

/-- A builder that is handed its own members only makes a closed hierarchy. -/
theorem Own.isClosed_build {b : HierarchyBuilder} (hb : b.Own) {h : Hierarchy}
    (hbuild : b.build = .ok h) : h.IsClosed := by
  have hkeeps := hb.keeps
  unfold build at hbuild
  cases hdefault : b.default? with
  | none => simp [hdefault, violate] at hbuild
  | some m =>
    simp only [hdefault, Except.ok.injEq] at hbuild
    subst hbuild
    refine ⟨hkeeps.hierarchy_eq, hkeeps.parent_mem, ?_⟩
    unfold default? at hdefault
    cases hown : b.defaultMember? with
    | some own => exact hkeeps.default_mem m (by simpa [hown] using hdefault)
    | none =>
      cases hall : b.allMember? with
      | some all => exact hkeeps.all_mem m (by simpa [hown, hall] using hdefault)
      | none => exact List.mem_of_head? (by simpa [hown, hall] using hdefault)

end HierarchyBuilder

/-! ### Names -/

theorem bracketed_injective : Function.Injective bracketed := by
  intro a b hab
  exact (String.append_right_inj _).mp ((String.append_left_inj _).mp hab)

theorem Hierarchy.beq_iff_name_eq {a b : Hierarchy} : (a == b) = true ↔ a.name = b.name := by
  change (a.uniqueName == b.uniqueName) = true ↔ _
  rw [beq_iff_eq]
  exact bracketed_injective.eq_iff

structure Cube.IsSound (cube : Cube) : Prop where
  names_nodup : (cube.hierarchies.map Hierarchy.name).Nodup
  closed : ∀ h ∈ cube.hierarchies, h.IsClosed

namespace Cube

/-- A tuple of members of a cube. -/
def Holds (cube : Cube) (row : Tuple) : Prop := ∀ m ∈ row, ∃ h ∈ cube.hierarchies, m ∈ h.members

variable {cube : Cube} {h : Hierarchy} {i : Nat}

theorem ordinal?_go_spec {name : String} :
    ∀ {hierarchies : List Hierarchy} {start i : Nat},
      ordinal?.go name hierarchies start = some i →
        ∃ k own, i = start + k ∧ hierarchies[k]? = some own ∧ own.name = name
  | [], _, _, hgo => by simp [ordinal?.go] at hgo
  | own :: rest, start, i, hgo => by
    rw [ordinal?.go] at hgo
    cases hrest : ordinal?.go name rest (start + 1) with
    | some j =>
      obtain ⟨k, found, hk, hfound, hname⟩ := ordinal?_go_spec hrest
      refine ⟨k + 1, found, ?_, hfound, hname⟩
      have : i = j := by simpa [hrest] using hgo.symm
      omega
    | none =>
      by_cases hname : own.name = name
      · refine ⟨0, own, ?_, rfl, hname⟩
        simpa [hrest, hname] using hgo.symm
      · simp [hrest, hname] at hgo

/-- A position answers for a hierarchy of the name that was asked for. -/
theorem ordinal?_spec {name : String} (hi : cube.ordinal? name = some i) :
    ∃ own, cube.hierarchies[i]? = some own ∧ own.name = name := by
  obtain ⟨k, own, hk, hown, hname⟩ := ordinal?_go_spec hi
  rw [Nat.zero_add] at hk
  exact ⟨own, hk ▸ hown, hname⟩

theorem ordinal?_go_isSome {name : String} :
    ∀ {hierarchies : List Hierarchy} (start : Nat),
      (∃ own ∈ hierarchies, own.name = name) → (ordinal?.go name hierarchies start).isSome
  | [], _, hmem => by simp at hmem
  | own :: rest, start, hmem => by
    rw [ordinal?.go]
    by_cases hname : own.name = name
    · cases ordinal?.go name rest (start + 1) <;> simp [hname]
    · have hrest : ∃ found ∈ rest, found.name = name := by simpa [hname] using hmem
      have hsome := ordinal?_go_isSome (start + 1) hrest
      obtain ⟨j, hj⟩ := Option.isSome_iff_exists.mp hsome
      simp [hj]

namespace IsSound

theorem eq_of_name_eq (hcube : cube.IsSound) {a b : Hierarchy} (ha : a ∈ cube.hierarchies)
    (hb : b ∈ cube.hierarchies) (hname : a.name = b.name) : a = b :=
  List.inj_on_of_nodup_map hcube.names_nodup ha hb hname

/-- The position that a name answers with is the position of the hierarchy that bears it. -/
theorem ordinal?_eq_some_iff (hcube : cube.IsSound) (hh : h ∈ cube.hierarchies) :
    cube.ordinal? h.name = some i ↔ cube.hierarchies[i]? = some h := by
  obtain ⟨j, hj⟩ := Option.isSome_iff_exists.mp
    (ordinal?_go_isSome 0 ⟨h, hh, rfl⟩)
  have hj' : cube.ordinal? h.name = some j := hj
  obtain ⟨own, hown, hname⟩ := ordinal?_spec hj'
  have heq : own = h := hcube.eq_of_name_eq (List.mem_of_getElem? hown) hh hname
  subst heq
  rw [hj', Option.some.injEq]
  constructor
  · rintro rfl
    exact hown
  · intro hi
    have hnodup : cube.hierarchies.Nodup := hcube.names_nodup.of_map
    have hlt : j < cube.hierarchies.length := (List.getElem?_eq_some_iff.mp hown).1
    exact (List.getElem?_inj hlt hnodup).mp (hown.trans hi.symm)

theorem exists_ordinal? (hcube : cube.IsSound) (hh : h ∈ cube.hierarchies) :
    ∃ i, cube.ordinal? h.name = some i ∧ cube.hierarchies[i]? = some h := by
  obtain ⟨i, hi⟩ := List.getElem?_of_mem hh
  exact ⟨i, (hcube.ordinal?_eq_some_iff hh).mpr hi, hi⟩

/-- A member of a hierarchy of the cube leads back to the hierarchy. -/
theorem hierarchyOf?_eq (hcube : cube.IsSound) (hh : h ∈ cube.hierarchies) {m : Member}
    (hm : m ∈ h.members) : cube.hierarchyOf? m = some h := by
  obtain ⟨i, hi, hget⟩ := hcube.exists_ordinal? hh
  simp [hierarchyOf?, hierarchy?, (hcube.closed h hh).hierarchy_eq m hm, hi, hget]

end IsSound

end Cube

/-! ### A cube of sales -/

namespace Sales

open HierarchyBuilder

def timeBuilder : HierarchyBuilder :=
  (((withAll "Time").setLevels ["Year"]).addMember none "2023").addMember none "2024"

def time : Hierarchy := timeBuilder.build.toOption.get rfl

def firstYear : Member := time.members.get ⟨1, by decide⟩

/-- Without an all member, a context stands at the first town unless it is moved. -/
def townBuilder : HierarchyBuilder :=
  (((withoutAll "Town").setLevels ["Town"]).addMember none "Oslo").addMember none "Bergen"

def town : Hierarchy := townBuilder.build.toOption.get rfl

def oslo : Member := town.members.get ⟨0, by decide⟩

def bergen : Member := town.members.get ⟨1, by decide⟩

theorem time_isClosed : time.IsClosed :=
  have hbuilder : timeBuilder.Own :=
    (((Own.withAll "Time").setLevels _).addMember (by simp) _).addMember (by simp) _
  hbuilder.isClosed_build rfl

theorem town_isClosed : town.IsClosed :=
  have hbuilder : townBuilder.Own :=
    (((Own.withoutAll "Town").setLevels _).addMember (by simp) _).addMember (by simp) _
  hbuilder.isClosed_build rfl

end Sales

def Cube.sales : Cube := ⟨"Sales", [Sales.time, Sales.town]⟩

theorem Cube.sales_isSound : sales.IsSound := by
  refine ⟨by decide, ?_⟩
  simpa [sales] using And.intro Sales.time_isClosed Sales.town_isClosed

end CubeCalc
