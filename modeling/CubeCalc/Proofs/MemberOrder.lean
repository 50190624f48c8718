import CubeCalc.Proofs.Forest
/-!
# The order of members

Members are ordered by the places that they have, and their identity is their name alone. The order
is total, and members that it does not tell apart are the same. The converse fails where one name
was given to two places. In a hierarchy places are never shared, so that the order is that in which
the members were added, and it goes with identity just if all names are different.
-/

namespace CubeCalc

namespace Member

variable {a b : Member}

theorem compare_eq_compareLex : Member.compare =
    compareLex (compareOn hierarchy) (compareLex (compareOn ordinal) (compareOn uniqueName)) := rfl

instance : Std.TransCmp Member.compare := by
  rw [compare_eq_compareLex]
  infer_instance

/-- Members that are ordered alike have one name and one place. -/
theorem compare_eq_eq_iff : a.compare b = .eq ↔
    (a == b) = true ∧ a.hierarchy = b.hierarchy ∧ a.ordinal = b.ordinal := by
  rw [compare_eq_compareLex, compareLex_eq_eq, compareLex_eq_eq, beq_iff]
  simp only [compareOn, Std.LawfulEqOrd.compare_eq_iff_eq]
  constructor
  · rintro ⟨hhierarchy, hordinal, hname⟩
    exact ⟨hname, hhierarchy, hordinal⟩
  · rintro ⟨hname, hhierarchy, hordinal⟩
    exact ⟨hhierarchy, hordinal, hname⟩

theorem compare_eq_lt_of_ordinal_lt (hhierarchy : a.hierarchy = b.hierarchy)
    (hordinal : a.ordinal < b.ordinal) : a.compare b = .lt := by
  have hbefore : Ord.compare a.ordinal b.ordinal = .lt := Std.compare_eq_lt.mpr hordinal
  rw [compare_eq_compareLex]
  simp only [compareLex, compareOn, hhierarchy, Std.ReflOrd.compare_self, hbefore]
  rfl

end Member

/-! ### Members of one hierarchy -/

namespace HierarchyBuilder

variable {b : HierarchyBuilder} {h : Hierarchy}

/-- Members are listed in ascending order, as long as their ordinals can be told apart. -/
theorem Grown.pairwise_compare (hb : b.Grown) (hcount : b.members.length ≤ UInt32.size) :
    b.members.Pairwise fun m n => m.compare n = .lt := by
  have hplace : ∀ (i : Nat) (hi : i < b.members.length), b.members[i].hierarchy = b.name ∧
      b.members[i].ordinal.toNat = i := by
    intro i hi
    have hordinal := hb.own.linked.ordinal_eq i b.members[i] (List.getElem?_eq_getElem hi)
    refine ⟨hb.own.keeps.hierarchy_eq _ (List.getElem_mem hi), ?_⟩
    rw [hordinal, UInt32.toNat_ofNat_of_lt' (Nat.lt_of_lt_of_le hi hcount)]
  rw [List.pairwise_iff_getElem]
  intro i j hi hj hij
  apply Member.compare_eq_lt_of_ordinal_lt
  · rw [(hplace i hi).1, (hplace j hj).1]
  · rw [UInt32.lt_iff_toNat_lt, (hplace i hi).2, (hplace j hj).2]
    exact hij

end HierarchyBuilder

/-- Where members ascend, order and identity agree just if no two members have one name. -/
theorem compare_eq_eq_iff_beq_of_pairwise {members : List Member}
    (hmembers : members.Pairwise fun m n => m.compare n = .lt) :
    (∀ m ∈ members, ∀ n ∈ members, m.compare n = .eq ↔ (m == n) = true) ↔
      (members.map Member.uniqueName).Nodup := by
  constructor
  · intro hagree
    rw [List.nodup_iff_pairwise_ne, List.pairwise_map]
    refine hmembers.imp_of_mem fun {m n} hm hn hbefore hname => ?_
    rw [(hagree m hm n hn).mpr (Member.beq_iff.mpr hname)] at hbefore
    cases hbefore
  · intro hnames m hm n hn
    refine ⟨fun horder => (Member.compare_eq_eq_iff.mp horder).1, fun hsame => ?_⟩
    obtain rfl := List.inj_on_of_nodup_map hnames hm hn (Member.beq_iff.mp hsame)
    exact Std.ReflCmp.compare_self

/-- The order of members is reflexive, antisymmetric, transitive and total, and two members are
alike in it just if they have the same name, hierarchy and ordinal. So it agrees with identity
unless one name was given to two places. The members of a hierarchy ascend, and among them the order
agrees with identity just if all their names are different. -/
theorem Member.compare_orders_by_place (a b c : Member) :
    a.compare a = .eq ∧ b.compare a = (a.compare b).swap ∧
    ((a.compare b).isLE = true ∨ (b.compare a).isLE = true) ∧
    ((a.compare b).isLE = true → (b.compare a).isLE = true → (a == b) = true) ∧
    ((a.compare b).isLE = true → (b.compare c).isLE = true → (a.compare c).isLE = true) ∧
    (a.compare b = .eq ↔ (a == b) = true ∧ a.hierarchy = b.hierarchy ∧ a.ordinal = b.ordinal) ∧
    ((a.compare b = .eq ↔ (a == b) = true) ↔
      ((a == b) = true → a.hierarchy = b.hierarchy ∧ a.ordinal = b.ordinal)) ∧
    ∀ (builder : HierarchyBuilder) (h : Hierarchy), builder.Grown → builder.build = .ok h →
      h.members.length ≤ UInt32.size →
      (h.members.Pairwise fun m n => m.compare n = .lt) ∧
      ((∀ m ∈ h.members, ∀ n ∈ h.members, m.compare n = .eq ↔ (m == n) = true) ↔
        (h.members.map Member.uniqueName).Nodup) := by
  have hswap : b.compare a = (a.compare b).swap := Std.OrientedCmp.eq_swap
  refine ⟨Std.ReflCmp.compare_self, hswap, ?_, fun hab hba => ?_, Std.TransCmp.isLE_trans,
    compare_eq_eq_iff, ?_, fun builder h hb hbuild hcount => ?_⟩
  · rw [hswap]
    cases a.compare b <;> simp
  · exact (compare_eq_eq_iff.mp (Std.OrientedCmp.isLE_antisymm hab hba)).1
  · rw [compare_eq_eq_iff, and_iff_left_iff_imp]
  · rw [(HierarchyBuilder.members_of_build hbuild).1] at hcount ⊢
    have hascending := hb.pairwise_compare hcount
    exact ⟨hascending, compare_eq_eq_iff_beq_of_pairwise hascending⟩

namespace Sales

theorem region_ascends : bergen.compare oslo = (oslo.compare bergen).swap ∧
    regionBuilder.Grown ∧ ∃ h, regionBuilder.build = .ok h ∧ h.members.length ≤ UInt32.size ∧
      (h.members.Pairwise fun m n => m.compare n = .lt) ∧
      ∀ m ∈ h.members, ∀ n ∈ h.members, m.compare n = .eq ↔ (m == n) = true := by
  obtain ⟨h, hbuild⟩ := HierarchyBuilder.exists_build_of_members_ne_nil
    (by simp [regionBuilder, HierarchyBuilder.addMember] : regionBuilder.members ≠ [])
  have hmembers := (HierarchyBuilder.members_of_build hbuild).1
  have hcount : h.members.length ≤ UInt32.size := by
    rw [hmembers]
    decide
  obtain ⟨-, hswap, -, -, -, -, -, hhierarchy⟩ :=
    Member.compare_orders_by_place oslo bergen firstYear
  obtain ⟨hascending, hagree⟩ :=
    hhierarchy regionBuilder h regionBuilder_own.grown hbuild hcount
  refine ⟨hswap, regionBuilder_own.grown, h, hbuild, hcount, hascending, hagree.mpr ?_⟩
  rw [hmembers]
  exact regionBuilder_names

/-- One year, made twice for different places. -/
def yearAt (ordinal : UInt32) : Member := .under none ⟨"Time", "2024", ordinal, .regular⟩

theorem yearAt_ordered_apart :
    (yearAt 0 == yearAt 7) = true ∧ (yearAt 0).compare (yearAt 7) = .lt := by decide

end Sales

end CubeCalc
