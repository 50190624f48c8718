import CubeCalc.Calc.Plan
import CubeCalc.Proofs.Conformity
/-!
# The size of plans

A plan has an entry for each part of a calc. The elements of a set literal are parts of their own,
and a tuple has its members for parts. That is why a literal asks for no more slots than its plan
has entries, and why there are slots for all literals of a calc that is held in memory.
-/

namespace CubeCalc

namespace CalcPlan

theorem size_le_sizes {plan : CalcPlan} {plans : List CalcPlan} (hplan : plan ∈ plans) :
    plan.size ≤ sizes plans := by
  induction plans with
  | nil => cases hplan
  | cons first rest ih =>
    rw [sizes]
    rcases List.mem_cons.mp hplan with rfl | hrest
    · omega
    · have hle := ih hrest
      omega

theorem length_mul_le_sizes {plans : List CalcPlan} {least : Nat}
    (hplans : ∀ plan ∈ plans, least ≤ plan.size) : plans.length * least ≤ sizes plans := by
  induction plans with
  | nil => simp
  | cons first rest ih =>
    rw [List.forall_mem_cons] at hplans
    calc (rest.length + 1) * least
        = least + rest.length * least := by rw [Nat.succ_mul, Nat.add_comm]
      _ ≤ first.size + sizes rest := Nat.add_le_add hplans.1 (ih hplans.2)

end CalcPlan

namespace Calc

variable {cube : Cube} {config : CalcConfig} {c child : Calc}

theorem size_plan (c : Calc) : c.plan.size = 1 + CalcPlan.sizes (c.children.map plan) := by
  have hplan : c.plan = .node c.className c.arguments (c.children.map plan) := foldTree_eq _ c
  rw [hplan, CalcPlan.size]

theorem size_plan_pos (c : Calc) : 0 < c.plan.size := by
  rw [size_plan]
  omega

theorem size_plan_lt (hchild : child ∈ c.children) : child.plan.size < c.plan.size := by
  have hle := CalcPlan.size_le_sizes (List.mem_map_of_mem (f := plan) hchild)
  rw [size_plan c]
  omega

theorem length_mul_le_size_plan (c : Calc) {least : Nat}
    (hchildren : ∀ child ∈ c.children, least ≤ child.plan.size) :
    c.children.length * least ≤ c.plan.size := by
  calc c.children.length * least
      = (c.children.map plan).length * least := by rw [List.length_map]
    _ ≤ CalcPlan.sizes (c.children.map plan) :=
        CalcPlan.length_mul_le_sizes (List.forall_mem_map.mpr hchildren)
    _ ≤ c.plan.size := by
        rw [size_plan]
        omega

namespace Formed

/-- A tuple is written out, member by member. -/
theorem eq_tupleLiteral (hc : Formed cube config c) (htype : c.type.isTuple = true) :
    ∃ members, c = .tupleLiteral members := by
  cases hc with
  | tupleLiteral => exact ⟨_, rfl⟩
  | constant value => cases value <;> cases htype
  | setLiteral hfirst =>
    rw [type_setLiteral hfirst] at htype
    cases htype
  | @memberParent member _ hmember =>
    have htuple : member.type.isTuple = true := htype
    cases hcase : member.type <;> simp_all [StaticType.isMember, StaticType.isTuple]
  | @filter set _ _ hset | @order set _ _ hset | @packedList set _ _ hset
  | @copiedList set _ hset =>
    have htuple : set.type.isTuple = true := htype
    cases hcase : set.type <;> simp_all [StaticType.isSet, StaticType.isTuple]
  | @iif _ thenCalc _ _ _ _ hthen =>
    have htuple : thenCalc.type.isTuple = true := htype
    cases hcase : thenCalc.type <;> simp_all [StaticType.isScalar, StaticType.isTuple]
  | _ => cases htype

/-- An element of a set literal has a part for each of its members, or is one itself. -/
theorem arity_le_size_plan (hc : Formed cube config c)
    (helement : (c.type.isMember || c.type.isTuple) = true) :
    max c.type.arity 1 ≤ c.plan.size := by
  refine Nat.max_le.mpr ⟨?_, c.size_plan_pos⟩
  rcases Bool.or_eq_true_iff.mp helement with hmember | htuple
  · cases hcase : c.type <;> simp_all [StaticType.isMember, StaticType.arity]
    exact c.size_plan_pos
  · obtain ⟨members, rfl⟩ := hc.eq_tupleLiteral htuple
    have hparts : members.length * 1 ≤ (Calc.tupleLiteral members).plan.size :=
      (Calc.tupleLiteral members).length_mul_le_size_plan fun member _ => member.size_plan_pos
    rw [type_tupleLiteral, StaticType.arity, List.length_map]
    omega

theorem reservable (hc : Formed cube config c) (hsize : c.plan.size < Packed.slotBound) :
    c.everySet Calc.reservable = true := by
  induction c using children_induction with
  | step c ih =>
    rw [everySet_eq, Bool.and_eq_true, List.all_eq_true]
    refine ⟨?_, fun child hchild => ?_⟩
    · cases hc with
      | @setLiteral elements first hfirst helements htypes harity =>
        obtain ⟨rest, rfl⟩ : ∃ rest, elements = first :: rest := by
          cases elements <;> simp_all
        -- Slots are reserved by the arity of the first element, which is that of all.
        have hslots : (rest.length + 1) * max first.type.arity 1 ≤
            (Calc.setLiteral (first :: rest) config.limit).plan.size :=
          (Calc.setLiteral (first :: rest) config.limit).length_mul_le_size_plan fun own hown => by
            rw [← harity own hown]
            exact (helements own hown).arity_le_size_plan (htypes own hown)
        exact decide_eq_true (Nat.lt_of_le_of_lt hslots hsize)
      | _ => rfl
    · exact ih child hchild (hc.of_mem_children hchild) (Nat.lt_trans (size_plan_lt hchild) hsize)

end Formed

end Calc

end CubeCalc
