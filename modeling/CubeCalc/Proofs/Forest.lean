import CubeCalc.Proofs.Cube
import Mathlib.Data.List.Perm.Basic
import Mathlib.Logic.Relation
/-!
# Hierarchies as forests

A builder hangs each member below a member that is there already. So the ancestors that a member
carries are members of the hierarchy, and what is found by looking for children, by walking up and
by counting depths is one and the same forest, as long as no two members go by one unique name.
-/

namespace CubeCalc

/-! ### Lines of ancestors -/

namespace Member

/-- The members above a member, from its parent up. -/
def ancestors : Member → List Member
  | .root _ => []
  | .child parent _ => parent :: parent.ancestors

variable {a b m parent : Member}

theorem length_ancestors (m : Member) : m.ancestors.length = m.depth := by
  induction m with
  | root label => rfl
  | child parent label ih => rw [ancestors, List.length_cons, ih, depth]

theorem ancestors_of_parent? (hparent : m.parent? = some parent) :
    m.ancestors = parent :: parent.ancestors := by
  cases m with
  | root label => cases hparent
  | child own label =>
    obtain rfl : own = parent := Option.some.inj hparent
    rfl

theorem depth_of_parent? (hparent : m.parent? = some parent) : m.depth = parent.depth + 1 := by
  rw [← length_ancestors m, ancestors_of_parent? hparent, List.length_cons, length_ancestors]

theorem depth_lt_of_mem_ancestors (ha : a ∈ m.ancestors) : a.depth < m.depth := by
  induction m with
  | root label => cases ha
  | child parent label ih =>
    rw [depth]
    rcases List.mem_cons.mp ha with rfl | hup
    · omega
    · have hlt := ih hup
      omega

theorem depth_le_of_mem_line (ha : a ∈ m :: m.ancestors) : a.depth ≤ m.depth := by
  rcases List.mem_cons.mp ha with rfl | hup
  · exact Nat.le_refl _
  · exact Nat.le_of_lt (depth_lt_of_mem_ancestors hup)

/-- A line has one member at each depth. -/
theorem eq_of_mem_line (ha : a ∈ m :: m.ancestors) (hb : b ∈ m :: m.ancestors)
    (hdepth : a.depth = b.depth) : a = b := by
  induction m with
  | root label => rw [List.mem_singleton.mp ha, List.mem_singleton.mp hb]
  | child parent label ih =>
    rcases List.mem_cons.mp ha with rfl | hup <;> rcases List.mem_cons.mp hb with rfl | hup'
    · rfl
    · exact absurd hdepth.symm (Nat.ne_of_lt (depth_lt_of_mem_ancestors hup'))
    · exact absurd hdepth (Nat.ne_of_lt (depth_lt_of_mem_ancestors hup))
    · exact ih hup hup'

theorem exists_mem_line_of_depth {d : Nat} (hd : d ≤ m.depth) :
    ∃ a ∈ m :: m.ancestors, a.depth = d := by
  induction m with
  | root label => exact ⟨_, List.mem_cons_self, (Nat.le_zero.mp hd).symm⟩
  | child parent label ih =>
    rcases Nat.eq_or_lt_of_le hd with rfl | hlt
    · exact ⟨_, List.mem_cons_self, rfl⟩
    · obtain ⟨a, ha, hdepth⟩ := ih (Nat.le_of_lt_succ hlt)
      exact ⟨a, List.mem_cons_of_mem _ ha, hdepth⟩

theorem mem_line_of_parent? (hparent : m.parent? = some parent) : parent ∈ m :: m.ancestors := by
  rw [ancestors_of_parent? hparent]
  exact List.mem_cons_of_mem _ List.mem_cons_self

/-- Lines above a member of a line are part of it. -/
theorem mem_line_trans (ha : a ∈ b :: b.ancestors) (hb : b ∈ m :: m.ancestors) :
    a ∈ m :: m.ancestors := by
  induction m with
  | root label => rwa [List.mem_singleton.mp hb] at ha
  | child parent label ih =>
    rcases List.mem_cons.mp hb with rfl | hup
    · exact ha
    · exact List.mem_cons_of_mem _ (ih hup)

theorem nodup_ancestors (m : Member) : m.ancestors.Nodup := by
  induction m with
  | root label => exact List.nodup_nil
  | child parent label ih =>
    rw [ancestors, List.nodup_cons]
    exact ⟨fun hup => Nat.lt_irrefl _ (depth_lt_of_mem_ancestors hup), ih⟩

/-- The line up to an ancestor comes by one of its children. -/
theorem exists_parent?_eq_of_mem_ancestors (ha : a ∈ m.ancestors) :
    ∃ c ∈ m :: m.ancestors, c.parent? = some a := by
  induction m with
  | root label => cases ha
  | child parent label ih =>
    rcases List.mem_cons.mp ha with rfl | hup
    · exact ⟨_, List.mem_cons_self, rfl⟩
    · obtain ⟨c, hc, hparent⟩ := ih hup
      exact ⟨c, List.mem_cons_of_mem _ hc, hparent⟩

/-! ### Walking up -/

theorem beq_iff : (a == b) = true ↔ a.uniqueName = b.uniqueName := by
  change (a.uniqueName == b.uniqueName) = true ↔ _
  exact beq_iff_eq

theorem beq_refl (m : Member) : (m == m) = true := beq_iff.mpr rfl

theorem isMetAbove_of_mem_line (ha : a ∈ m :: m.ancestors) : a.isMetAbove m = true := by
  induction m with
  | root label =>
    rw [List.mem_singleton.mp ha, isMetAbove]
    exact beq_refl _
  | child parent label ih =>
    rw [isMetAbove]
    rcases List.mem_cons.mp ha with rfl | hup
    · rw [beq_refl, Bool.true_or]
    · have hle : a.depth ≤ parent.depth + 1 := Nat.le_succ_of_le (depth_le_of_mem_line hup)
      rw [ih hup, decide_eq_true hle, Bool.true_and, Bool.or_true]

theorem exists_beq_of_isMetAbove (hmet : a.isMetAbove m = true) :
    ∃ own ∈ m :: m.ancestors, (a == own) = true := by
  induction m with
  | root label => exact ⟨_, List.mem_cons_self, hmet⟩
  | child parent label ih =>
    rw [isMetAbove, Bool.or_eq_true, Bool.and_eq_true] at hmet
    rcases hmet with hself | ⟨-, hup⟩
    · exact ⟨_, List.mem_cons_self, hself⟩
    · obtain ⟨own, hown, heq⟩ := ih hup
      exact ⟨own, List.mem_cons_of_mem _ hown, heq⟩

end Member

/-! ### Builders -/

namespace HierarchyBuilder

/-- A builder that has only been handed members of its own as parents. The default may be any. -/
inductive Grown : HierarchyBuilder → Prop where
  | withoutAll (name : String) : Grown (withoutAll name)
  | withAll (name : String) : Grown (withAll name)
  | measures : Grown measures
  | setDimension {b : HierarchyBuilder} (hb : Grown b) (dimension : String) :
    Grown (b.setDimension dimension)
  | setLevels {b : HierarchyBuilder} (hb : Grown b) (names : List String) :
    Grown (b.setLevels names)
  | addMember {b : HierarchyBuilder} (hb : Grown b) {parent? : Option Member}
    (hparent : ∀ parent, parent? = some parent → parent ∈ b.members) (name : String) :
    Grown (b.addMember parent? name)
  | setDefault {b : HierarchyBuilder} (hb : Grown b) (m : Member) : Grown (b.setDefault m)

/-- But for the default, such a builder has been handed members of its own only. -/
theorem Grown.own {b : HierarchyBuilder} (hb : b.Grown) :
    ({ b with defaultMember? := none } : HierarchyBuilder).Own := by
  induction hb with
  | withoutAll name => exact .withoutAll name
  | withAll name => exact .withAll name
  | measures => exact .measures
  | setDimension _ dimension ih => exact ih.setDimension dimension
  | setLevels _ names ih => exact ih.setLevels names
  | addMember _ hparent name ih => exact ih.addMember hparent name
  | setDefault _ m ih => exact ih

theorem Own.grown {b : HierarchyBuilder} (hb : b.Own) : b.Grown := by
  induction hb with
  | withoutAll name => exact .withoutAll name
  | withAll name => exact .withAll name
  | measures => exact .measures
  | setDimension _ dimension ih => exact ih.setDimension dimension
  | setLevels _ names ih => exact ih.setLevels names
  | addMember _ hparent name ih => exact ih.addMember hparent name
  | setDefault _ _ ih => exact ih.setDefault _

/-- How the members of a builder hang together, in the order in which they were added. -/
structure Linked (b : HierarchyBuilder) : Prop where
  ordinal_eq : ∀ (i : Nat) (m : Member), b.members[i]? = some m → m.ordinal = UInt32.ofNat i
  parent_before : ∀ (i : Nat) (m : Member), b.members[i]? = some m →
    ∀ parent, m.parent? = some parent → ∃ j < i, b.members[j]? = some parent
  kind_ne : b.memberKind ≠ .all
  all_above : ∀ a ∈ b.members, a.isAll = true →
    b.allMember? = some a ∧ ∀ m ∈ b.members, a ∈ m :: m.ancestors

variable {b : HierarchyBuilder}

theorem linked_of_members_eq_nil (hmembers : b.members = []) (hkind : b.memberKind ≠ .all) :
    b.Linked where
  ordinal_eq i m hm := by simp [hmembers] at hm
  parent_before i m hm := by simp [hmembers] at hm
  kind_ne := hkind
  all_above a ha := by simp [hmembers] at ha

theorem linked_withAll (name : String) : (withAll name).Linked where
  ordinal_eq i m hm := by
    cases i with
    | zero =>
      obtain rfl : Member.all name _ = m := Option.some.inj hm
      rfl
    | succ i => cases hm
  parent_before i m hm parent hparent := by
    cases i with
    | zero =>
      obtain rfl : Member.all name _ = m := Option.some.inj hm
      cases hparent
    | succ i => cases hm
  kind_ne := nofun
  all_above a ha _ := by
    obtain rfl := List.mem_singleton.mp ha
    refine ⟨rfl, fun m hm => ?_⟩
    rw [List.mem_singleton.mp hm]
    exact List.mem_cons_self

/-- A member that was there already, at its position, or the member that has been added. -/
theorem getElem?_addMember {parent? : Option Member} {name : String} {i : Nat} {m : Member}
    (hm : (b.addMember parent? name).members[i]? = some m) :
    b.members[i]? = some m ∨ i = b.members.length ∧ m = b.nextMember parent? name := by
  change (b.members ++ [b.nextMember parent? name])[i]? = some m at hm
  rw [List.getElem?_append] at hm
  split at hm
  · exact .inl hm
  · rw [List.getElem?_singleton] at hm
    split at hm
    · exact .inr ⟨by omega, (Option.some.inj hm).symm⟩
    · cases hm

theorem Linked.addMember (hb : b.Linked) (hkeeps : b.Keeps) {parent? : Option Member}
    (hparent : ∀ parent, parent? = some parent → parent ∈ b.members) (name : String) :
    (b.addMember parent? name).Linked := by
  have hnew : ∀ own, (parent? <|> b.allMember?) = some own → own ∈ b.members := by
    intro own hown
    cases parent? with
    | some given => exact hparent own hown
    | none => exact hkeeps.all_mem own hown
  refine ⟨fun i m hm => ?_, fun i m hm parent hmp => ?_, hb.kind_ne, fun a ha hall => ?_⟩
  · rcases getElem?_addMember hm with hold | ⟨rfl, rfl⟩
    · exact hb.ordinal_eq i m hold
    · simp [nextMember, Member.ordinal, label_under]
  · rcases getElem?_addMember hm with hold | ⟨rfl, rfl⟩
    · obtain ⟨j, hj, hget⟩ := hb.parent_before i m hold parent hmp
      exact ⟨j, hj, List.getElem?_append_left (List.getElem?_eq_some_iff.mp hget).1 ▸ hget⟩
    · rw [nextMember, parent?_under] at hmp
      obtain ⟨j, hget⟩ := List.getElem?_of_mem (hnew parent hmp)
      have hj := (List.getElem?_eq_some_iff.mp hget).1
      exact ⟨j, hj, List.getElem?_append_left hj ▸ hget⟩
  · have hold : a ∈ b.members := by
      rcases List.mem_append.mp ha with hold | hlast
      · exact hold
      · obtain rfl := List.mem_singleton.mp hlast
        simp [nextMember, Member.isAll, Member.kind, label_under, hb.kind_ne] at hall
    obtain ⟨hself, habove⟩ := hb.all_above a hold hall
    refine ⟨hself, fun m hm => ?_⟩
    rcases List.mem_append.mp hm with hmold | hlast
    · exact habove m hmold
    · -- The new member hangs below the all member, or below a member that does.
      obtain rfl := List.mem_singleton.mp hlast
      obtain ⟨own, hown⟩ : ∃ own, (parent? <|> b.allMember?) = some own := by
        cases parent? with
        | some given => exact ⟨given, rfl⟩
        | none => exact ⟨a, hself⟩
      have hline : (b.nextMember parent? name).ancestors = own :: own.ancestors :=
        Member.ancestors_of_parent? (by rw [nextMember, parent?_under, hown])
      rw [hline]
      exact List.mem_cons_of_mem _ (habove own (hnew own hown))

theorem Own.linked (hb : b.Own) : b.Linked := by
  induction hb with
  | withoutAll name => exact linked_of_members_eq_nil rfl nofun
  | withAll name => exact linked_withAll name
  | measures => exact linked_of_members_eq_nil rfl nofun
  | addMember hown hparent name ih => exact ih.addMember hown.keeps hparent name
  | setDimension _ _ ih | setLevels _ _ ih | setDefault _ _ ih =>
    exact ⟨ih.ordinal_eq, ih.parent_before, ih.kind_ne, ih.all_above⟩

theorem members_of_build {h : Hierarchy} (hbuild : b.build = .ok h) :
    h.members = b.members ∧ h.name = b.name ∧
      h.levels = (List.range (b.maxDepth + 1)).map b.level := by
  rw [build] at hbuild
  cases hdefault : b.default? with
  | none => simp [hdefault, violate] at hbuild
  | some m =>
    simp only [hdefault, Except.ok.injEq] at hbuild
    subst hbuild
    exact ⟨rfl, rfl, rfl⟩

end HierarchyBuilder

/-! ### Members with a unique name each -/

namespace Hierarchy

/-- A hierarchy of a builder that was handed members of its own as parents, no two of its members
going by one unique name. -/
structure IsBuilt (h : Hierarchy) : Prop where
  exists_builder : ∃ b : HierarchyBuilder, b.Grown ∧ b.build = .ok h
  names_nodup : (h.members.map Member.uniqueName).Nodup

/-- Lines of ancestors stay within the hierarchy, and an all member is on every line. -/
structure IsRooted (h : Hierarchy) : Prop where
  hierarchy_eq : ∀ m ∈ h.members, m.hierarchy = h.name
  parent_mem : ∀ m ∈ h.members, ∀ parent, m.parent? = some parent → parent ∈ h.members
  all_above : ∀ a ∈ h.members, a.isAll = true → ∀ m ∈ h.members, a ∈ m :: m.ancestors
  names_nodup : (h.members.map Member.uniqueName).Nodup

theorem IsBuilt.isRooted {h : Hierarchy} (hh : h.IsBuilt) : h.IsRooted := by
  obtain ⟨b, hb, hbuild⟩ := hh.exists_builder
  obtain ⟨hmembers, hname, -⟩ := HierarchyBuilder.members_of_build hbuild
  refine ⟨?_, ?_, ?_, hh.names_nodup⟩ <;> rw [hmembers]
  · rw [hname]
    exact hb.own.keeps.hierarchy_eq
  · exact hb.own.keeps.parent_mem
  · exact fun a ha hall => (hb.own.linked.all_above a ha hall).2

namespace IsRooted

variable {h : Hierarchy} {a b c m p : Member}

theorem eq_of_beq (hh : h.IsRooted) (ha : a ∈ h.members) (hb : b ∈ h.members)
    (heq : (a == b) = true) : a = b :=
  List.inj_on_of_nodup_map hh.names_nodup ha hb (Member.beq_iff.mp heq)

theorem mem_of_mem_line (hh : h.IsRooted) (hm : m ∈ h.members) (ha : a ∈ m :: m.ancestors) :
    a ∈ h.members := by
  induction m with
  | root label => rwa [List.mem_singleton.mp ha]
  | child parent label ih =>
    rcases List.mem_cons.mp ha with rfl | hup
    · exact hm
    · exact ih (hh.parent_mem _ hm parent rfl) hup

/-- Walking up meets the members of the line. -/
theorem isAncestorOrSelf_iff (hh : h.IsRooted) (ha : a ∈ h.members) (hm : m ∈ h.members) :
    a.isAncestorOrSelf m = true ↔ a ∈ m :: m.ancestors := by
  rw [Member.isAncestorOrSelf, hh.hierarchy_eq a ha, hh.hierarchy_eq m hm, beq_self_eq_true,
    Bool.true_and, Bool.or_eq_true]
  constructor
  · rintro (hall | hmet)
    · exact hh.all_above a ha hall m hm
    · obtain ⟨own, hown, heq⟩ := Member.exists_beq_of_isMetAbove hmet
      rwa [hh.eq_of_beq ha (hh.mem_of_mem_line hm hown) heq]
  · exact fun hline => .inr (Member.isMetAbove_of_mem_line hline)

theorem mem_children_iff (hh : h.IsRooted) (hp : p ∈ h.members) :
    c ∈ h.children p ↔ c ∈ h.members ∧ c.parent? = some p := by
  rw [children, List.mem_filter]
  refine and_congr_right fun hc => ?_
  rw [Option.any_eq_true]
  constructor
  · rintro ⟨parent, hparent, heq⟩
    rw [hparent, hh.eq_of_beq (hh.parent_mem c hc parent hparent) hp heq]
  · exact fun hparent => ⟨p, hparent, Member.beq_refl p⟩

/-- Going down from child to child reaches the members whose line comes by. -/
theorem reaches_iff (hh : h.IsRooted) (ha : a ∈ h.members) (hm : m ∈ h.members) :
    Relation.ReflTransGen (fun upper lower => lower ∈ h.children upper) a m ↔
      a ∈ m :: m.ancestors := by
  constructor
  · intro hreaches
    suffices hboth : m ∈ h.members ∧ a ∈ m :: m.ancestors from hboth.2
    clear hm
    induction hreaches with
    | refl => exact ⟨ha, List.mem_cons_self⟩
    | tail _ hchild ih =>
      obtain ⟨hc, hparent⟩ := (hh.mem_children_iff ih.1).mp hchild
      rw [Member.ancestors_of_parent? hparent]
      exact ⟨hc, List.mem_cons_of_mem _ ih.2⟩
  · intro hline
    induction m with
    | root label =>
      rw [List.mem_singleton.mp hline]
    | child parent label ih =>
      rcases List.mem_cons.mp hline with rfl | hup
      · exact .refl
      · have hparent := hh.parent_mem _ hm parent rfl
        exact (ih hparent hup).tail ((hh.mem_children_iff hparent).mpr ⟨hm, rfl⟩)

theorem members_nodup (hh : h.IsRooted) : h.members.Nodup := hh.names_nodup.of_map

/-- The members that are found above a member, itself apart, are its ancestors. -/
theorem length_filter_above (hh : h.IsRooted) (hm : m ∈ h.members) :
    (h.members.filter fun a => a.isAncestorOrSelf m && a != m).length = m.depth := by
  have hperm : (h.members.filter fun a => a.isAncestorOrSelf m && a != m).Perm m.ancestors := by
    rw [List.perm_ext_iff_of_nodup (hh.members_nodup.filter _) m.nodup_ancestors]
    intro a
    rw [List.mem_filter, Bool.and_eq_true]
    constructor
    · rintro ⟨ha, habove, hne⟩
      rcases List.mem_cons.mp ((hh.isAncestorOrSelf_iff ha hm).mp habove) with rfl | hup
      · simp [bne, Member.beq_refl] at hne
      · exact hup
    · intro hup
      have hline := List.mem_cons_of_mem m hup
      have ha := hh.mem_of_mem_line hm hline
      refine ⟨ha, (hh.isAncestorOrSelf_iff ha hm).mpr hline, ?_⟩
      rw [bne, Bool.not_eq_true', Bool.eq_false_iff]
      intro heq
      rw [hh.eq_of_beq ha hm heq] at hup
      exact Nat.lt_irrefl _ (Member.depth_lt_of_mem_ancestors hup)
  rw [hperm.length_eq, m.length_ancestors]

theorem countP_beq (hh : h.IsRooted) (hm : m ∈ h.members) : h.members.countP (· == m) = 1 := by
  calc h.members.countP (· == m)
      = (h.members.map Member.uniqueName).count m.uniqueName := by
        rw [List.count, List.countP_map]
        rfl
    _ = 1 := List.count_eq_one_of_mem hh.names_nodup (List.mem_map_of_mem hm)

theorem countP_children (hh : h.IsRooted) (hm : m ∈ h.members) (hparent : m.parent? = some p) :
    (h.children p).countP (· == m) = 1 := by
  rw [children, List.countP_filter, ← hh.countP_beq hm]
  refine List.countP_congr fun c hc => ?_
  rw [Bool.and_eq_true, and_iff_left_iff_imp]
  intro heq
  rw [hh.eq_of_beq hc hm heq, hparent, Option.any_some]
  exact Member.beq_refl p

theorem parent?_of_countP_children (hh : h.IsRooted) (hm : m ∈ h.members) (hp : p ∈ h.members)
    (hcount : 0 < (h.children p).countP (· == m)) : m.parent? = some p := by
  obtain ⟨c, hc, heq⟩ := List.countP_pos_iff.mp hcount
  obtain ⟨hmem, hparent⟩ := (hh.mem_children_iff hp).mp hc
  rwa [hh.eq_of_beq hmem hm heq] at hparent

end IsRooted

/-! ### Levels -/

/-- Each depth at which there are members has a level, and no other depth has one. -/
structure IsLayered (h : Hierarchy) : Prop where
  level?_isSome_iff : ∀ d, (h.level? d).isSome = true ↔ h.membersAtDepth d ≠ []
  depths_nodup : (h.levels.map Level.depth).Nodup

end Hierarchy

namespace HierarchyBuilder

variable {b : HierarchyBuilder}

theorem foldl_max_le_iff {depths : List Nat} {start n : Nat} :
    depths.foldl max start ≤ n ↔ start ≤ n ∧ ∀ d ∈ depths, d ≤ n := by
  induction depths generalizing start with
  | nil => simp
  | cons d rest ih => rw [List.foldl_cons, ih, Nat.max_le, List.forall_mem_cons, and_assoc]

theorem depth_le_maxDepth {m : Member} (hm : m ∈ b.members) : m.depth ≤ b.maxDepth :=
  (foldl_max_le_iff.mp (Nat.le_refl b.maxDepth)).2 _ (List.mem_map_of_mem hm)

theorem exists_depth_eq_maxDepth (hmembers : b.members ≠ []) :
    ∃ m ∈ b.members, m.depth = b.maxDepth := by
  by_contra hnone
  have hlt : ∀ m ∈ b.members, m.depth < b.maxDepth := fun m hm =>
    Nat.lt_of_le_of_ne (depth_le_maxDepth hm) fun heq => hnone ⟨m, hm, heq⟩
  obtain ⟨first, hfirst⟩ := List.exists_mem_of_ne_nil _ hmembers
  have hpos : 0 < b.maxDepth := Nat.lt_of_le_of_lt (Nat.zero_le _) (hlt first hfirst)
  have hle : b.maxDepth ≤ b.maxDepth - 1 :=
    foldl_max_le_iff.mpr ⟨Nat.zero_le _, List.forall_mem_map.mpr fun m hm =>
      Nat.le_sub_one_of_lt (hlt m hm)⟩
  omega

theorem isLayered_of_build {h : Hierarchy} (hh : h.IsRooted) (hbuild : b.build = .ok h)
    (hmembers : b.members ≠ []) : h.IsLayered := by
  obtain ⟨hsame, -, hlevels⟩ := members_of_build hbuild
  have hdepths : h.levels.map Level.depth = List.range (b.maxDepth + 1) := by
    rw [hlevels, List.map_map]
    exact List.map_id _
  refine ⟨fun d => ?_, hdepths ▸ List.nodup_range⟩
  have hlevel : (h.level? d).isSome = true ↔ d ≤ b.maxDepth := by
    rw [Hierarchy.level?, List.find?_isSome]
    calc (∃ level ∈ h.levels, (level.depth == d) = true)
        ↔ d ∈ h.levels.map Level.depth := by simp [List.mem_map]
      _ ↔ d ≤ b.maxDepth := by rw [hdepths, List.mem_range, Nat.lt_succ_iff]
  rw [hlevel]
  constructor
  · intro hd
    obtain ⟨deepest, hdeepest, hdepth⟩ := exists_depth_eq_maxDepth hmembers
    rw [← hsame] at hdeepest
    obtain ⟨m, hm, hmd⟩ := Member.exists_mem_line_of_depth (hdepth ▸ hd)
    have hat : m ∈ h.membersAtDepth d :=
      List.mem_filter.mpr ⟨hh.mem_of_mem_line hdeepest hm, beq_iff_eq.mpr hmd⟩
    exact List.ne_nil_of_mem hat
  · intro hne
    obtain ⟨m, hat⟩ := List.exists_mem_of_ne_nil _ hne
    obtain ⟨hm, hmd⟩ := List.mem_filter.mp hat
    rw [← beq_iff_eq.mp hmd]
    exact depth_le_maxDepth (hsame ▸ hm)

end HierarchyBuilder

/-! ### Forests -/

/-- All that a hierarchy says of its members describes one forest. -/
structure Hierarchy.IsForest (h : Hierarchy) : Prop where
  ordinal_eq : ∀ (i : Nat) (m : Member), h.members[i]? = some m → m.ordinal.toNat = i
  parent_before : ∀ (i : Nat) (m : Member), h.members[i]? = some m →
    ∀ parent, m.parent? = some parent → ∃ j < i, h.members[j]? = some parent
  /-- The depth is the number of proper ancestors. -/
  depth_eq : ∀ m ∈ h.members,
    (h.members.filter fun a => a.isAncestorOrSelf m && a != m).length = m.depth
  layered : h.IsLayered
  /-- A member with a parent is listed once, as a child of one member. -/
  child_of_one : ∀ m ∈ h.members, ∀ parent, m.parent? = some parent →
    parent ∈ h.members ∧ (h.children parent).countP (· == m) = 1 ∧
      ∀ other ∈ h.members, 0 < (h.children other).countP (· == m) → other = parent
  reaches_iff : ∀ a ∈ h.members, ∀ m ∈ h.members, a.isAncestorOrSelf m = true ↔
    Relation.ReflTransGen (fun upper lower => lower ∈ h.children upper) a m

namespace HierarchyBuilder

variable {b : HierarchyBuilder}

theorem exists_build_of_members_ne_nil (hmembers : b.members ≠ []) : ∃ h, b.build = .ok h := by
  obtain ⟨m, hm⟩ : ∃ m, b.default? = some m := by
    rw [default?]
    cases b.defaultMember? with
    | some own => exact ⟨own, rfl⟩
    | none =>
      cases b.allMember? with
      | some all => exact ⟨all, rfl⟩
      | none => exact ⟨_, List.head?_eq_some_head hmembers⟩
  rw [build, hm]
  exact ⟨_, rfl⟩

/-- There is nothing to build without a member. -/
theorem Own.exists_build_iff (hb : b.Own) : (∃ h, b.build = .ok h) ↔ b.members ≠ [] := by
  refine ⟨?_, exists_build_of_members_ne_nil⟩
  rintro ⟨h, hbuild⟩
  rw [← (members_of_build hbuild).1]
  exact List.ne_nil_of_mem (hb.isClosed_build hbuild).default_mem

/-- A builder with a member makes a hierarchy of its members, and this hierarchy is a forest if each
member has a number of its own and a unique name. -/
theorem Own.forest_of_build (hb : b.Own) (hcount : b.members.length < UInt32.size)
    (hnames : (b.members.map Member.uniqueName).Nodup) :
    ((∃ h, b.build = .ok h) ↔ b.members ≠ []) ∧
      ∀ h, b.build = .ok h → h.members = b.members ∧ h.IsForest := by
  refine ⟨hb.exists_build_iff, fun h hbuild => ?_⟩
  have hsame := (members_of_build hbuild).1
  have hh : h.IsRooted := Hierarchy.IsBuilt.isRooted ⟨⟨b, hb.grown, hbuild⟩, hsame ▸ hnames⟩
  refine ⟨hsame, fun i m hm => ?_, fun i m hm => ?_, fun m hm => hh.length_filter_above hm,
    isLayered_of_build hh hbuild (hb.exists_build_iff.mp ⟨h, hbuild⟩),
    fun m hm parent hparent => ?_, fun a ha m hm => ?_⟩
  · rw [hsame] at hm
    have hlt : i < UInt32.size := Nat.lt_trans (List.getElem?_eq_some_iff.mp hm).1 hcount
    rw [hb.linked.ordinal_eq i m hm, UInt32.toNat_ofNat_of_lt' hlt]
  · rw [hsame] at hm ⊢
    exact hb.linked.parent_before i m hm
  · have hmem := hh.parent_mem m hm parent hparent
    refine ⟨hmem, hh.countP_children hm hparent, fun other hother hcount => ?_⟩
    have hown := hh.parent?_of_countP_children hm hother hcount
    exact Option.some.inj (hown.symm.trans hparent)
  · rw [hh.isAncestorOrSelf_iff ha hm, hh.reaches_iff ha hm]

end HierarchyBuilder

namespace Sales

open HierarchyBuilder

def norway : Member := (withAll "Region").nextMember none "Norway"

def regionBuilder : HierarchyBuilder :=
  ((((withAll "Region").addMember none "Norway").addMember none "Denmark").addMember norway
    "Oslo").addMember norway "Bergen"

theorem regionBuilder_own : regionBuilder.Own := by
  have hnorway : ((withAll "Region").addMember none "Norway").Own :=
    (Own.withAll "Region").addMember (by simp) _
  have hmem : ∀ parent, some norway = some parent →
      parent ∈ ((withAll "Region").addMember none "Norway").members := by
    rintro _ ⟨rfl⟩
    exact List.mem_append_right _ List.mem_cons_self
  refine ((hnorway.addMember (by simp) _).addMember (fun parent h => ?_) _).addMember
    (fun parent h => ?_) _
  · exact List.mem_append_left _ (hmem parent h)
  · exact List.mem_append_left _ (List.mem_append_left _ (hmem parent h))

theorem regionBuilder_names : (regionBuilder.members.map Member.uniqueName).Nodup := by decide

theorem region_forest : regionBuilder.Own ∧ regionBuilder.members.length < UInt32.size ∧
    (regionBuilder.members.map Member.uniqueName).Nodup ∧
    ∃ h, regionBuilder.build = .ok h ∧ h.members = regionBuilder.members ∧ h.IsForest := by
  have hcount : regionBuilder.members.length < UInt32.size := by decide
  refine ⟨regionBuilder_own, hcount, regionBuilder_names, ?_⟩
  obtain ⟨hexists, hforest⟩ :=
    HierarchyBuilder.Own.forest_of_build regionBuilder_own hcount regionBuilder_names
  obtain ⟨h, hbuild⟩ := hexists.mpr (by simp [regionBuilder, HierarchyBuilder.addMember])
  exact ⟨h, hbuild, hforest h hbuild⟩

end Sales

end CubeCalc
