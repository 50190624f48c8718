import CubeCalc.Context
import CubeCalc.Proofs.Cube
import CubeCalc.Proofs.Outcome
/-!
# Contexts of a sound cube

A context stands in a cube if it holds one member of each hierarchy. From there it can be moved to
any member of the cube. Two contexts agree on some hierarchies if they hold the same members there.
Moves keep what two contexts agree on, and add the hierarchy that is moved.
-/

namespace CubeCalc

namespace Context

/-- The context holds one member of each hierarchy of a cube. -/
structure Stands (cube : Cube) (ctx : Context) : Prop where
  cube_eq : ctx.cube = cube
  members_mem : List.Forall₂ (fun m h => m ∈ Hierarchy.members h) ctx.members cube.hierarchies

/-- Two contexts differ at most in the current members of hierarchies without a property. -/
structure AgreesOn (p : Hierarchy → Prop) (ctx₁ ctx₂ : Context) : Prop where
  cube_eq : ctx₁.cube = ctx₂.cube
  facts_eq : ctx₁.facts = ctx₂.facts
  nonEmpty_eq : ctx₁.nonEmpty = ctx₂.nonEmpty
  members_eq : ∀ (i : Nat) (h : Hierarchy), ctx₁.cube.hierarchies[i]? = some h → p h →
    ctx₁.members[i]? = ctx₂.members[i]?

variable {cube : Cube} {ctx ctx₁ ctx₂ : Context} {h : Hierarchy} {m : Member}

/-! ### Standing -/

namespace Stands

theorem length_members (hctx : ctx.Stands cube) : ctx.members.length = cube.hierarchies.length :=
  hctx.members_mem.length_eq

theorem root (hcube : cube.IsSound) (facts : FactTable Double) :
    (Context.root cube facts).Stands cube := by
  refine ⟨rfl, ?_⟩
  change List.Forall₂ _ (cube.hierarchies.map Hierarchy.defaultMember) cube.hierarchies
  rw [List.forall₂_map_left_iff, List.forall₂_same]
  exact fun h hh => (hcube.closed h hh).default_mem

theorem getElem?_mem (hctx : ctx.Stands cube) {i : Nat} (hi : cube.hierarchies[i]? = some h)
    (hm : ctx.members[i]? = some m) : m ∈ h.members := by
  have hpair := List.Forall₂.get hctx.members_mem
  obtain ⟨hi', hih⟩ := List.getElem?_eq_some_iff.mp hi
  obtain ⟨hm', him⟩ := List.getElem?_eq_some_iff.mp hm
  have := hpair hm' hi'
  simpa [← hih, ← him] using this

/-- There is a current member of each hierarchy, and it is one of its members. -/
theorem member_eq (hcube : cube.IsSound) (hctx : ctx.Stands cube) (hh : h ∈ cube.hierarchies) :
    ∃ (i : Nat) (m : Member), cube.hierarchies[i]? = some h ∧ ctx.members[i]? = some m ∧
      m ∈ h.members ∧ ctx.member h = .ok m := by
  obtain ⟨i, hi, hget⟩ := hcube.exists_ordinal? hh
  have hlt : i < ctx.members.length := by
    rw [hctx.length_members]
    exact (List.getElem?_eq_some_iff.mp hget).1
  have hm : ctx.members[i]? = some ctx.members[i] := List.getElem?_eq_getElem hlt
  refine ⟨i, ctx.members[i], hget, hm, hctx.getElem?_mem hget hm, ?_⟩
  simp [Context.member, hctx.cube_eq, hi, hm]

end Stands

/-! ### Moving -/

/-- A context can be moved to any member of its cube. -/
theorem move_eq (hcube : cube.IsSound) (hctx : ctx.Stands cube) (hh : h ∈ cube.hierarchies)
    (hm : m ∈ h.members) :
    ∃ i, cube.hierarchies[i]? = some h ∧
      ctx.move m = .ok { ctx with members := ctx.members.set i m } := by
  obtain ⟨i, hi, hget⟩ := hcube.exists_ordinal? hh
  have hlt : i < ctx.members.length := by
    rw [hctx.length_members]
    exact (List.getElem?_eq_some_iff.mp hget).1
  refine ⟨i, hget, ?_⟩
  simp [Context.move, hctx.cube_eq, (hcube.closed h hh).hierarchy_eq m hm, hi, hlt]

theorem Stands.set (hctx : ctx.Stands cube) {i : Nat} (hi : cube.hierarchies[i]? = some h)
    (hm : m ∈ h.members) : ({ ctx with members := ctx.members.set i m } : Context).Stands cube := by
  refine ⟨hctx.cube_eq, ?_⟩
  rw [List.forall₂_iff_get]
  refine ⟨by simp [hctx.length_members], fun k hk hk' => ?_⟩
  simp only [List.get_eq_getElem, List.getElem_set]
  split
  · next heq =>
    subst heq
    obtain ⟨_, hget⟩ := List.getElem?_eq_some_iff.mp hi
    exact hget ▸ hm
  · have hlt : k < ctx.members.length := by simpa using hk
    exact List.Forall₂.get hctx.members_mem hlt hk'

/-- Moves leave it as it is whether empty cells are left out. -/
theorem nonEmpty_of_moveAll :
    ∀ {row : Tuple} {ctx moved : Context}, ctx.moveAll row = .ok moved →
      moved.nonEmpty = ctx.nonEmpty
  | [], ctx, moved, hmoved => by
    obtain rfl : ctx = moved := by simpa [moveAll, pure, Except.pure] using hmoved
    rfl
  | m :: rest, ctx, moved, hmoved => by
    rw [moveAll, List.foldlM_cons, Outcome.bind_eq_ok_iff] at hmoved
    obtain ⟨first, hfirst, hrest⟩ := hmoved
    rw [nonEmpty_of_moveAll hrest]
    rw [Context.move] at hfirst
    split at hfirst
    · simp [violate] at hfirst
    · split at hfirst
      · rw [← Except.ok.inj hfirst]
      · simp [violate] at hfirst

/-! ### Agreement -/

namespace AgreesOn

variable {p q : Hierarchy → Prop}

theorem refl (p : Hierarchy → Prop) (ctx : Context) : AgreesOn p ctx ctx :=
  ⟨rfl, rfl, rfl, fun _ _ _ _ => rfl⟩

theorem trans {ctx₃ : Context} (h₁₂ : AgreesOn p ctx₁ ctx₂) (h₂₃ : AgreesOn p ctx₂ ctx₃) :
    AgreesOn p ctx₁ ctx₃ :=
  ⟨h₁₂.cube_eq.trans h₂₃.cube_eq, h₁₂.facts_eq.trans h₂₃.facts_eq,
    h₁₂.nonEmpty_eq.trans h₂₃.nonEmpty_eq,
    fun i h hi hp => (h₁₂.members_eq i h hi hp).trans (h₂₃.members_eq i h (h₁₂.cube_eq ▸ hi) hp)⟩

theorem mono (hagree : AgreesOn p ctx₁ ctx₂) (hqp : ∀ h ∈ ctx₁.cube.hierarchies, q h → p h) :
    AgreesOn q ctx₁ ctx₂ :=
  ⟨hagree.cube_eq, hagree.facts_eq, hagree.nonEmpty_eq,
    fun i h hi hq => hagree.members_eq i h hi (hqp h (List.mem_of_getElem? hi) hq)⟩

/-- Contexts that agree everywhere are the same. -/
theorem eq_of_forall (hagree : AgreesOn p ctx₁ ctx₂) (hctx₁ : ctx₁.Stands cube)
    (hctx₂ : ctx₂.Stands cube) (hp : ∀ h ∈ cube.hierarchies, p h) : ctx₁ = ctx₂ := by
  have hmembers : ctx₁.members = ctx₂.members := by
    apply List.ext_getElem?
    intro i
    cases hi : cube.hierarchies[i]? with
    | some h =>
      exact hagree.members_eq i h (hctx₁.cube_eq ▸ hi) (hp h (List.mem_of_getElem? hi))
    | none =>
      have hle : cube.hierarchies.length ≤ i := List.getElem?_eq_none_iff.mp hi
      rw [List.getElem?_eq_none (hctx₁.length_members ▸ hle),
        List.getElem?_eq_none (hctx₂.length_members ▸ hle)]
  cases ctx₁
  cases ctx₂
  obtain ⟨hcube, hfacts, hnonEmpty, -⟩ := hagree
  simp_all

theorem member_eq (hcube : cube.IsSound) (hagree : AgreesOn p ctx₁ ctx₂)
    (hctx₁ : ctx₁.Stands cube) (hh : h ∈ cube.hierarchies) (hp : p h) :
    ctx₁.member h = ctx₂.member h := by
  obtain ⟨i, hi, hget⟩ := hcube.exists_ordinal? hh
  have heq := hagree.members_eq i h (hctx₁.cube_eq ▸ hget) hp
  have hi₁ : ctx₁.cube.ordinal? h.name = some i := hctx₁.cube_eq ▸ hi
  simp only [Context.member, ← hagree.cube_eq, hi₁, heq]

/-- Contexts that are moved to one member agree on its hierarchy, too. -/
theorem set (hcube : cube.IsSound) (hagree : AgreesOn p ctx₁ ctx₂) (hctx₁ : ctx₁.Stands cube)
    (hctx₂ : ctx₂.Stands cube) {i : Nat} (hi : cube.hierarchies[i]? = some h) :
    AgreesOn (fun own => p own ∨ own = h) { ctx₁ with members := ctx₁.members.set i m }
      { ctx₂ with members := ctx₂.members.set i m } := by
  refine ⟨hagree.cube_eq, hagree.facts_eq, hagree.nonEmpty_eq, fun k own hk hown => ?_⟩
  have hk' : cube.hierarchies[k]? = some own := hctx₁.cube_eq ▸ hk
  simp only [List.getElem?_set]
  by_cases hik : i = k
  · simp [hik, hctx₁.length_members, hctx₂.length_members]
  · rw [if_neg hik, if_neg hik]
    refine hagree.members_eq k own hk (hown.resolve_right fun heq => hik ?_)
    have hnodup : cube.hierarchies.Nodup := hcube.names_nodup.of_map
    exact (List.getElem?_inj (List.getElem?_eq_some_iff.mp hi).1 hnodup).mp
      (hi.trans (heq ▸ hk').symm)

end AgreesOn

/-- Moving to a member leaves all other hierarchies as they are. -/
theorem agreesOn_set (hctx : ctx.Stands cube) {i : Nat}
    (hi : cube.hierarchies[i]? = some h) :
    AgreesOn (· ≠ h) ctx { ctx with members := ctx.members.set i m } := by
  refine ⟨rfl, rfl, rfl, fun k own hk hown => ?_⟩
  have hik : i ≠ k := by
    rintro rfl
    rw [hctx.cube_eq, hi, Option.some.injEq] at hk
    exact hown hk.symm
  simp [hik]

/-- Two contexts that are moved to the same tuple get to contexts that agree on what they agreed on
before, and on each hierarchy that the tuple has a member of. -/
theorem moveAll_agreesOn (hcube : cube.IsSound) :
    ∀ {row : Tuple} {p : Hierarchy → Prop} {ctx₁ ctx₂ : Context}, AgreesOn p ctx₁ ctx₂ →
      ctx₁.Stands cube → ctx₂.Stands cube → cube.Holds row →
      ∃ moved₁ moved₂, ctx₁.moveAll row = .ok moved₁ ∧ ctx₂.moveAll row = .ok moved₂ ∧
        moved₁.Stands cube ∧ moved₂.Stands cube ∧
        AgreesOn (fun h => p h ∨ ∃ m ∈ row, m ∈ h.members) moved₁ moved₂
  | [], p, ctx₁, ctx₂, hagree, hctx₁, hctx₂, _ =>
    ⟨ctx₁, ctx₂, rfl, rfl, hctx₁, hctx₂, hagree.mono fun h _ hp => by simpa using hp⟩
  | m :: rest, p, ctx₁, ctx₂, hagree, hctx₁, hctx₂, hrow => by
    obtain ⟨own, hown, hm⟩ := hrow m List.mem_cons_self
    obtain ⟨i, hi, hmove₁⟩ := move_eq hcube hctx₁ hown hm
    obtain ⟨i', hi', hmove₂⟩ := move_eq hcube hctx₂ hown hm
    have heq : i = i' := Option.some.inj <|
      ((hcube.ordinal?_eq_some_iff hown).mpr hi).symm.trans
        ((hcube.ordinal?_eq_some_iff hown).mpr hi')
    subst heq
    have hset := hagree.set hcube hctx₁ hctx₂ (m := m) hi
    obtain ⟨moved₁, moved₂, hall₁, hall₂, hstands₁, hstands₂, hmoved⟩ :=
      moveAll_agreesOn hcube hset (hctx₁.set hi hm) (hctx₂.set hi hm)
        fun m' hm' => hrow m' (List.mem_cons_of_mem _ hm')
    refine ⟨moved₁, moved₂, ?_, ?_, hstands₁, hstands₂, hmoved.mono fun h hh => ?_⟩
    · simpa [moveAll, hmove₁] using hall₁
    · simpa [moveAll, hmove₂] using hall₂
    · -- The hierarchy of a member is known by the name that the member carries.
      have hh' : h ∈ cube.hierarchies := hstands₁.cube_eq ▸ hh
      have hfirst : m ∈ h.members → h = own := fun hmem => by
        apply hcube.eq_of_name_eq hh' hown
        rw [← (hcube.closed h hh').hierarchy_eq m hmem, (hcube.closed own hown).hierarchy_eq m hm]
      simp only [List.mem_cons, exists_eq_or_imp]
      tauto

end Context

/-- The cube of sales, nothing sold yet. -/
def Sales.start : Context := .root .sales (.empty 2)

theorem Sales.start_stands : start.Stands .sales := .root Cube.sales_isSound _

/-- A sale in Oslo in the first year, seen from there. -/
def Sales.sold : Context :=
  ⟨.sales, ⟨2, [([firstYear, oslo], .boolean true)]⟩, [firstYear, oslo], false⟩

end CubeCalc
