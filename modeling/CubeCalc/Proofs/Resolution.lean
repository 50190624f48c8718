import CubeCalc.Exp.Compile
import CubeCalc.Hierarchy.Builder
import Mathlib.Data.List.Nodup
/-!
# The members that names stand for

A name is asked of one hierarchy after the other, and each answers with a member that has it for its
unique name, or else with the first one that has it for its plain name. So a plain name is answered
before the unique name of a later hierarchy is seen, and of several namesakes the first answers.
Elsewhere a name stands for the member that is meant.
-/

namespace CubeCalc

namespace Hierarchy

def Bears (h : Hierarchy) (name : String) : Prop := ∃ m ∈ h.members, m.uniqueName = name

/-- The members that have a name for their plain name. -/
def namesakes (h : Hierarchy) (name : String) : List Member :=
  h.members.filter fun m => m.name == name

/-- The namesakes in the first of some hierarchies that has any. -/
def firstNamesakes (name : String) : List Hierarchy → List (Hierarchy × Member)
  | [] => []
  | h :: rest =>
    if h.namesakes name = [] then firstNamesakes name rest
    else (h.namesakes name).map fun m => (h, m)

end Hierarchy

namespace Cube

def listed (cube : Cube) : List (Hierarchy × Member) :=
  cube.hierarchies.flatMap fun h => h.members.map fun m => (h, m)

/-- The unique names of a cube are all different. -/
def NamesApart (cube : Cube) : Prop := (cube.listed.map fun found => found.2.uniqueName).Nodup

def namesakes (cube : Cube) (name : String) : List (Hierarchy × Member) :=
  Hierarchy.firstNamesakes name cube.hierarchies

/-- What a name stands for: the member that has it for its unique name, and if there is none the
only namesake in the first hierarchy with a namesake. -/
def Designates (cube : Cube) (name : String) (found : Hierarchy × Member) : Prop :=
  (found ∈ cube.listed ∧ found.2.uniqueName = name) ∨
    ((∀ h ∈ cube.hierarchies, ¬ h.Bears name) ∧ cube.namesakes name = [found])

/-- A hierarchy before the one with the unique name has a namesake. -/
def Overtakes (cube : Cube) (name : String) : Prop :=
  ∃ before h after, cube.hierarchies = before ++ h :: after ∧ h.Bears name ∧
    ∃ g ∈ before, g.namesakes name ≠ []

/-- Several members could be meant, and no unique name tells which. -/
def Ambiguous (cube : Cube) (name : String) : Prop :=
  (∀ h ∈ cube.hierarchies, ¬ h.Bears name) ∧ 2 ≤ (cube.namesakes name).length

end Cube

/-! ### One hierarchy -/

namespace Hierarchy

variable {h : Hierarchy} {name : String}

theorem lookup?_of_bears (hbears : h.Bears name) :
    ∃ m ∈ h.members, m.uniqueName = name ∧ h.lookup? name = some m := by
  obtain ⟨m, hm, hname⟩ := hbears
  have hsome : (h.members.find? fun m => m.uniqueName == name).isSome = true :=
    List.find?_isSome.mpr ⟨m, hm, beq_iff_eq.mpr hname⟩
  obtain ⟨n, hn⟩ := Option.isSome_iff_exists.mp hsome
  have hsame := List.find?_some hn
  refine ⟨n, List.mem_of_find?_eq_some hn, beq_iff_eq.mp hsame, ?_⟩
  rw [lookup?, hn]
  rfl

theorem lookup?_of_not_bears (hbears : ¬ h.Bears name) :
    h.lookup? name = (h.namesakes name).head? := by
  have hnone : (h.members.find? fun m => m.uniqueName == name) = none := by
    rw [List.find?_eq_none]
    exact fun m hm hname => hbears ⟨m, hm, beq_iff_eq.mp hname⟩
  rw [lookup?, hnone, namesakes, List.head?_filter]
  rfl

end Hierarchy

/-! ### One hierarchy after the other -/

namespace Hierarchy

variable {name : String} {before rest : List Hierarchy}

theorem firstNamesakes_eq_nil_iff :
    firstNamesakes name rest = [] ↔ ∀ h ∈ rest, h.namesakes name = [] := by
  induction rest with
  | nil => simp [firstNamesakes]
  | cons h rest ih =>
    rw [firstNamesakes, List.forall_mem_cons]
    split
    · next hnone => rw [ih, and_iff_right hnone]
    · next hsome => simp [hsome]

theorem firstNamesakes_append (hbefore : firstNamesakes name before ≠ []) :
    firstNamesakes name (before ++ rest) = firstNamesakes name before := by
  induction before with
  | nil => exact absurd rfl hbefore
  | cons h before ih =>
    rw [List.cons_append, firstNamesakes, firstNamesakes]
    split
    · next hnone =>
      rw [firstNamesakes, if_pos hnone] at hbefore
      exact ih hbefore
    · rfl

theorem mem_of_mem_firstNamesakes {found : Hierarchy × Member}
    (hfound : found ∈ firstNamesakes name rest) : found.1 ∈ rest ∧ found.2 ∈ found.1.members := by
  induction rest with
  | nil => cases hfound
  | cons h rest ih =>
    rw [firstNamesakes] at hfound
    split at hfound
    · exact ⟨List.mem_cons_of_mem _ (ih hfound).1, (ih hfound).2⟩
    · obtain ⟨m, hm, rfl⟩ := List.mem_map.mp hfound
      exact ⟨List.mem_cons_self, List.mem_of_mem_filter hm⟩

/-- Where the unique name is not found a plain name is, in the first hierarchy that has it. -/
theorem findSome?_lookup?_of_not_bears (hbears : ∀ h ∈ rest, ¬ h.Bears name) :
    (rest.findSome? fun h => (h.lookup? name).map fun m => (h, m)) =
      (firstNamesakes name rest).head? := by
  induction rest with
  | nil => rfl
  | cons h rest ih =>
    obtain ⟨hown, hrest⟩ := List.forall_mem_cons.mp hbears
    rw [List.findSome?_cons, lookup?_of_not_bears hown, firstNamesakes, ih hrest]
    cases h.namesakes name with
    | nil => rfl
    | cons m more => rfl

end Hierarchy

namespace Cube

variable {cube : Cube} {name : String}

theorem mem_listed_iff {found : Hierarchy × Member} :
    found ∈ cube.listed ↔ found.1 ∈ cube.hierarchies ∧ found.2 ∈ found.1.members := by
  simp only [listed, List.mem_flatMap, List.mem_map]
  constructor
  · rintro ⟨h, hh, m, hm, rfl⟩
    exact ⟨hh, hm⟩
  · rintro ⟨hh, hm⟩
    exact ⟨found.1, hh, found.2, hm, rfl⟩

theorem bears_of_mem_listed {found : Hierarchy × Member} (hfound : found ∈ cube.listed)
    (hname : found.2.uniqueName = name) : ∃ h ∈ cube.hierarchies, h.Bears name :=
  ⟨found.1, (mem_listed_iff.mp hfound).1, found.2, (mem_listed_iff.mp hfound).2, hname⟩

/-- Before the hierarchy with a unique name there is no other with it. -/
theorem NamesApart.not_bears_of_mem_before (hapart : cube.NamesApart)
    {before after : List Hierarchy} {h : Hierarchy}
    (hsplit : cube.hierarchies = before ++ h :: after) (hbears : h.Bears name) :
    ∀ g ∈ before, ¬ g.Bears name := by
  rintro g hg ⟨n, hn, hsame⟩
  obtain ⟨m, hm, hname⟩ := hbears
  rw [NamesApart, listed, hsplit, List.flatMap_append, List.map_append,
    List.nodup_append'] at hapart
  have hg : (g, n) ∈ before.flatMap fun h => h.members.map fun m => (h, m) :=
    List.mem_flatMap_of_mem hg (List.mem_map_of_mem hn)
  have hh : (h, m) ∈ (h :: after).flatMap fun h => h.members.map fun m => (h, m) :=
    List.mem_flatMap_of_mem List.mem_cons_self (List.mem_map_of_mem hm)
  exact hapart.2.2 (List.mem_map.mpr ⟨(g, n), hg, hsame⟩) (List.mem_map.mpr ⟨(h, m), hh, hname⟩)

theorem lookup?_of_not_bears (hbears : ∀ h ∈ cube.hierarchies, ¬ h.Bears name) :
    cube.lookup? name = (cube.namesakes name).head? :=
  Hierarchy.findSome?_lookup?_of_not_bears hbears

theorem lookup?_of_overtakes (hapart : cube.NamesApart) (hover : cube.Overtakes name) :
    ∃ found, cube.lookup? name = some found ∧ found.2.uniqueName ≠ name ∧
      found ∈ cube.namesakes name := by
  obtain ⟨before, h, after, hsplit, hbears, g, hg, hnamesakes⟩ := hover
  have hbefore := hapart.not_bears_of_mem_before hsplit hbears
  have hsome : Hierarchy.firstNamesakes name before ≠ [] :=
    fun hnil => hnamesakes (Hierarchy.firstNamesakes_eq_nil_iff.mp hnil g hg)
  obtain ⟨found, more, hfound⟩ := List.exists_cons_of_ne_nil hsome
  have hmem : found ∈ Hierarchy.firstNamesakes name before := hfound ▸ List.mem_cons_self
  obtain ⟨hhierarchy, hmember⟩ := Hierarchy.mem_of_mem_firstNamesakes hmem
  refine ⟨found, ?_, fun hname => hbefore _ hhierarchy ⟨found.2, hmember, hname⟩, ?_⟩
  · rw [lookup?, hsplit, List.findSome?_append,
      Hierarchy.findSome?_lookup?_of_not_bears hbefore, hfound]
    rfl
  · rw [namesakes, hsplit, Hierarchy.firstNamesakes_append hsome]
    exact hmem

theorem lookup?_of_bears (hapart : cube.NamesApart) (hover : ¬ cube.Overtakes name)
    (hbears : ∃ h ∈ cube.hierarchies, h.Bears name) :
    ∃ found ∈ cube.listed, found.2.uniqueName = name ∧ cube.lookup? name = some found := by
  obtain ⟨h, hh, hown⟩ := hbears
  obtain ⟨before, after, hsplit⟩ := List.append_of_mem hh
  have hnone : Hierarchy.firstNamesakes name before = [] := by
    rw [Hierarchy.firstNamesakes_eq_nil_iff]
    intro g hg
    by_contra hnamesakes
    exact hover ⟨before, h, after, hsplit, hown, g, hg, hnamesakes⟩
  have hbefore := hapart.not_bears_of_mem_before hsplit hown
  obtain ⟨m, hm, hname, hlookup⟩ := Hierarchy.lookup?_of_bears hown
  refine ⟨(h, m), mem_listed_iff.mpr ⟨hh, hm⟩, hname, ?_⟩
  rw [lookup?, hsplit, List.findSome?_append,
    Hierarchy.findSome?_lookup?_of_not_bears hbefore, hnone, List.findSome?_cons, hlookup]
  rfl

/-- A name stands for one member at most. -/
theorem NamesApart.designates_unique (hapart : cube.NamesApart) {found other : Hierarchy × Member}
    (hfound : cube.Designates name found) (hother : cube.Designates name other) :
    found = other := by
  obtain ⟨hmem, hname⟩ | ⟨hbears, hsole⟩ := hfound <;>
    obtain ⟨hmem', hname'⟩ | ⟨hbears', hsole'⟩ := hother
  · exact List.inj_on_of_nodup_map hapart hmem hmem' (hname.trans hname'.symm)
  · obtain ⟨h, hh, hown⟩ := bears_of_mem_listed hmem hname
    exact absurd hown (hbears' h hh)
  · obtain ⟨h, hh, hown⟩ := bears_of_mem_listed hmem' hname'
    exact absurd hown (hbears h hh)
  · exact List.singleton_inj.mp (hsole.symm.trans hsole')

/-- Unless a name is overtaken or ambiguous, what it stands for answers it, if anything does. -/
theorem lookup?_eq_some_iff (hapart : cube.NamesApart) (hover : ¬ cube.Overtakes name)
    (hclear : ¬ cube.Ambiguous name) (found : Hierarchy × Member) :
    cube.lookup? name = some found ↔ cube.Designates name found := by
  by_cases hbears : ∃ h ∈ cube.hierarchies, h.Bears name
  · obtain ⟨own, hmem, hname, hlookup⟩ := lookup?_of_bears hapart hover hbears
    have hown : cube.Designates name own := .inl ⟨hmem, hname⟩
    rw [hlookup, Option.some_inj]
    constructor
    · rintro rfl
      exact hown
    · exact hapart.designates_unique hown
  · have hnone : ∀ h ∈ cube.hierarchies, ¬ h.Bears name :=
      fun h hh hown => hbears ⟨h, hh, hown⟩
    have hfew : (cube.namesakes name).length ≤ 1 := by
      by_contra hmany
      exact hclear ⟨hnone, by omega⟩
    rw [lookup?_of_not_bears hnone]
    constructor
    · intro hhead
      obtain ⟨more, hcons⟩ := List.head?_eq_some_iff.mp hhead
      rw [hcons, List.length_cons] at hfew
      obtain rfl := List.eq_nil_of_length_eq_zero (by omega : more.length = 0)
      exact .inr ⟨hnone, hcons⟩
    · rintro (⟨hmem, hname⟩ | ⟨-, hsole⟩)
      · exact absurd (bears_of_mem_listed hmem hname) hbears
      · rw [hsole, List.head?_singleton]

/-- Elsewhere it is answered by the first namesake, which it does not stand for. -/
theorem exists_lookup?_of_overtakes_or_ambiguous (hapart : cube.NamesApart)
    (hguess : cube.Overtakes name ∨ cube.Ambiguous name) :
    ∃ found ∈ cube.namesakes name, cube.lookup? name = some found ∧
      ¬ cube.Designates name found := by
  obtain hover | ⟨hnone, hmany⟩ := hguess
  · obtain ⟨found, hlookup, hname, hmem⟩ := lookup?_of_overtakes hapart hover
    refine ⟨found, hmem, hlookup, ?_⟩
    obtain ⟨before, h, after, hsplit, hbears, -⟩ := hover
    rintro (⟨-, hsame⟩ | ⟨hnone, -⟩)
    · exact hname hsame
    · exact hnone h (by simp [hsplit]) hbears
  · obtain ⟨found, more, hcons⟩ :=
      List.exists_cons_of_length_pos (Nat.lt_of_lt_of_le Nat.zero_lt_two hmany)
    refine ⟨found, hcons ▸ List.mem_cons_self, by rw [lookup?_of_not_bears hnone, hcons]; rfl, ?_⟩
    rintro (⟨hmem, hname⟩ | ⟨-, hsole⟩)
    · obtain ⟨h, hh, hown⟩ := bears_of_mem_listed hmem hname
      exact hnone h hh hown
    · rw [hsole, List.length_singleton] at hmany
      exact Nat.not_succ_le_self 1 hmany

end Cube

namespace Compiler

variable {compiler : Compiler} {name : String}

theorem compile_member_of_lookup? {found : Hierarchy × Member}
    (hlookup : compiler.cube.lookup? name = some found) :
    compiler.compile (.member name) = .ok (.memberLiteral found.1 found.2) := by
  rw [compile, Cube.resolveMember, hlookup]
  rfl

theorem compile_member_of_lookup?_eq_none (hlookup : compiler.cube.lookup? name = none) :
    compiler.compile (.member name) = fail (.notFound name) := by
  rw [compile, Cube.resolveMember, hlookup]
  rfl

/-- A name compiles to the member that it stands for, and is not found if it stands for none, just
if no earlier hierarchy overtakes it and it is not ambiguous. Otherwise it compiles all the same, to
a namesake that it does not stand for. -/
theorem compile_member_designates (hapart : compiler.cube.NamesApart) (name : String) :
    (¬ compiler.cube.Overtakes name ∧ ¬ compiler.cube.Ambiguous name →
      (∀ h m, compiler.compile (.member name) = .ok (.memberLiteral h m) ↔
        compiler.cube.Designates name (h, m)) ∧
      ((∀ found, ¬ compiler.cube.Designates name found) →
        compiler.compile (.member name) = fail (.notFound name))) ∧
    (compiler.cube.Overtakes name ∨ compiler.cube.Ambiguous name →
      ∃ h m, (h, m) ∈ compiler.cube.namesakes name ∧
        compiler.compile (.member name) = .ok (.memberLiteral h m) ∧
        ¬ compiler.cube.Designates name (h, m)) := by
  constructor
  · rintro ⟨hover, hclear⟩
    have hanswer := Cube.lookup?_eq_some_iff hapart hover hclear
    refine ⟨fun h m => ?_, fun hnone => ?_⟩
    · rw [← hanswer]
      cases hlookup : compiler.cube.lookup? name with
      | none =>
        rw [compile_member_of_lookup?_eq_none hlookup]
        simp [fail]
      | some found =>
        rw [compile_member_of_lookup? hlookup]
        simp [Prod.ext_iff]
    · refine compile_member_of_lookup?_eq_none (Option.eq_none_iff_forall_ne_some.mpr ?_)
      exact fun found hlookup => hnone found ((hanswer found).mp hlookup)
  · intro hguess
    obtain ⟨found, hmem, hlookup, hother⟩ :=
      Cube.exists_lookup?_of_overtakes_or_ambiguous hapart hguess
    exact ⟨found.1, found.2, hmem, compile_member_of_lookup? hlookup, hother⟩

end Compiler

/-! ### Towns of one name -/

namespace Sales

open HierarchyBuilder

def ohio : Member := (withoutAll "Town").nextMember none "Ohio"

def maine : Member := .root ⟨"Town", "Maine", 2, .regular⟩

/-- Two countries with a town each, and both towns have one name. -/
def twinTown : Hierarchy :=
  (((((withoutAll "Town").addMember none "Ohio").addMember ohio "Springfield").addMember none
    "Maine").addMember maine "Springfield").build.toOption.get rfl

def twinTowns : Compiler := ⟨⟨"Sales", [twinTown]⟩, {}⟩

def springfieldInOhio : Member := twinTown.members.get ⟨1, by decide⟩

def springfieldInMaine : Member := twinTown.members.get ⟨3, by decide⟩

theorem springfieldInMaine_resolved : twinTowns.cube.NamesApart ∧
    ¬ twinTowns.cube.Overtakes "[Town].[Maine].[Springfield]" ∧
    ¬ twinTowns.cube.Ambiguous "[Town].[Maine].[Springfield]" ∧
    twinTowns.compile (.member "[Town].[Maine].[Springfield]") =
      .ok (.memberLiteral twinTown springfieldInMaine) := by
  have hapart : twinTowns.cube.NamesApart := by
    rw [Cube.NamesApart]
    decide
  have hover : ¬ twinTowns.cube.Overtakes "[Town].[Maine].[Springfield]" := by
    rintro ⟨before, h, after, hsplit, -, g, hg, -⟩
    obtain ⟨rfl, -⟩ | ⟨-, hnil⟩ := List.singleton_eq_append_iff.mp hsplit
    · cases hg
    · cases hnil
  have hmem : (twinTown, springfieldInMaine) ∈ twinTowns.cube.listed :=
    Cube.mem_listed_iff.mpr ⟨List.mem_cons_self, List.get_mem _ _⟩
  have hname : springfieldInMaine.uniqueName = "[Town].[Maine].[Springfield]" := by decide
  have hclear : ¬ twinTowns.cube.Ambiguous "[Town].[Maine].[Springfield]" := by
    rintro ⟨hnone, -⟩
    obtain ⟨h, hh, hbears⟩ := Cube.bears_of_mem_listed hmem hname
    exact hnone h hh hbears
  obtain ⟨hresolved, -⟩ :=
    Compiler.compile_member_designates hapart "[Town].[Maine].[Springfield]"
  obtain ⟨hcompile, -⟩ := hresolved ⟨hover, hclear⟩
  exact ⟨hapart, hover, hclear, (hcompile _ _).mpr (.inl ⟨hmem, hname⟩)⟩

theorem springfield_guessed : twinTowns.cube.NamesApart ∧
    (∀ found, ¬ twinTowns.cube.Designates "Springfield" found) ∧
    twinTowns.compile (.member "Springfield") =
      .ok (.memberLiteral twinTown springfieldInOhio) ∧
    twinTowns.compile (.member "Springfield") ≠ fail (.notFound "Springfield") := by
  have hapart : twinTowns.cube.NamesApart := by
    rw [Cube.NamesApart]
    decide
  have hcompile : twinTowns.compile (.member "Springfield") =
      .ok (.memberLiteral twinTown springfieldInOhio) := rfl
  refine ⟨hapart, ?_, hcompile, ?_⟩
  · rintro found (⟨hmem, hname⟩ | ⟨-, hsole⟩)
    · have hnone : ∀ found ∈ twinTowns.cube.listed, found.2.uniqueName ≠ "Springfield" := by decide
      exact hnone found hmem hname
    · have htwo : (twinTowns.cube.namesakes "Springfield").length = 2 := by decide
      rw [hsole] at htwo
      cases htwo
  · rw [hcompile]
    exact fun hfail => by cases hfail

end Sales

end CubeCalc
