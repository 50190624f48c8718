import CubeCalc.Proofs.Forest
import CubeCalc.Proofs.MemberSet
import CubeCalc.Proofs.RollUp
/-!
# What simplifying a context resets

The walk over the hierarchies reads the caller's context and writes a copy of it, which is made for
the first hierarchy that is reset. Nothing that is written is read again, so that every hierarchy is
decided by itself: those that do not matter stand at their default members afterwards, all others
stand where they stood, and there is nothing left to reset.
-/

namespace CubeCalc

open Outcome

variable {cube : Cube} {ctx here : Context} {h : Hierarchy} {m : Member} {i : Nat}

theorem Cube.IsSound.isNamed (hcube : cube.IsSound) : cube.IsNamed :=
  fun h hh => (hcube.closed h hh).hierarchy_eq

namespace Context.HasPlaces

theorem override (hctx : ctx.HasPlaces cube) (row : Tuple) : (ctx.override row).HasPlaces cube where
  cube_eq := hctx.cube_eq
  length_eq := by
    rw [← hctx.length_eq]
    exact Cube.length_foldl_place ctx.cube ctx.members row

theorem reaches_default (hcube : cube.IsSound) (hctx : ctx.HasPlaces cube)
    (hh : h ∈ cube.hierarchies) : ctx.Reaches h.defaultMember :=
  hctx.reaches hcube.isNamed hh (hcube.closed h hh).default_mem

theorem member_eq (hcube : cube.IsSound) (hctx : ctx.HasPlaces cube)
    (hi : cube.hierarchies[i]? = some h) (hm : ctx.members[i]? = some m) :
    ctx.member h = .ok m := by
  have hordinal := (hcube.ordinal?_eq_some_iff (List.mem_of_getElem? hi)).mpr hi
  simp only [Context.member, hctx.cube_eq, hordinal, hm]

theorem exists_current (hctx : ctx.HasPlaces cube) (hh : h ∈ cube.hierarchies) :
    ∃ (i : Nat) (m : Member), cube.hierarchies[i]? = some h ∧ ctx.members[i]? = some m := by
  obtain ⟨i, hi⟩ := List.getElem?_of_mem hh
  have hlt : i < ctx.members.length := by
    rw [hctx.length_eq]
    exact (List.getElem?_eq_some_iff.mp hi).1
  exact ⟨i, ctx.members[i], hi, List.getElem?_eq_getElem hlt⟩

end Context.HasPlaces

/-! ### The hierarchies that are reset -/

namespace Calc

/-- A hierarchy with some current member is to be reset. -/
structure IsReset (c : Calc) (ctx : Context) (h : Hierarchy) (m : Member) : Prop where
  nonEmpty_eq : ctx.nonEmpty = false
  dependsOn_eq : c.dependsOn h = false
  isAll_eq : m.isAll = false
  beq_eq : (m == h.defaultMember) = false

/-- The hierarchies that are to be reset, in the order of the cube. -/
def resettable (c : Calc) (ctx : Context) : List Hierarchy :=
  if ctx.nonEmpty then []
  else ctx.cube.hierarchies.filter fun h => (c.resets ctx h).toOption.getD false

/-- Resets one more hierarchy in the copy, or in a new copy if there is none. -/
def resetIn (ctx : Context) (copy? : Option Context) (h : Hierarchy) : Option Context :=
  some ((copy?.getD ctx).override [h.defaultMember])

theorem foldl_resetIn (hs : List Hierarchy) (here : Context) :
    hs.foldl (resetIn ctx) (some here) = some (here.override (hs.map Hierarchy.defaultMember)) := by
  induction hs generalizing here with
  | nil => rfl
  | cons h rest ih =>
    rw [List.foldl_cons, List.map_cons, Context.override_cons]
    exact ih _

variable {c : Calc}

theorem resets_eq (hcube : cube.IsSound) (hctx : ctx.HasPlaces cube)
    (hi : cube.hierarchies[i]? = some h) (hm : ctx.members[i]? = some m) :
    c.resets ctx h = .ok (!m.isAll && !c.dependsOn h && !(m == h.defaultMember)) := by
  rw [resets, hctx.member_eq hcube hi hm]
  rfl

theorem mem_resettable_iff (hcube : cube.IsSound) (hctx : ctx.HasPlaces cube)
    (hi : cube.hierarchies[i]? = some h) (hm : ctx.members[i]? = some m) :
    h ∈ c.resettable ctx ↔ c.IsReset ctx h m := by
  have hh : h ∈ ctx.cube.hierarchies := hctx.cube_eq ▸ List.mem_of_getElem? hi
  have hvalue : (c.resets ctx h).toOption.getD false =
      (!m.isAll && !c.dependsOn h && !(m == h.defaultMember)) := by
    rw [resets_eq hcube hctx hi hm]
    rfl
  rw [resettable]
  constructor
  · intro hmem
    split at hmem
    · cases hmem
    · next hempty =>
      have hreset := (List.mem_filter.mp hmem).2
      simp only [hvalue, Bool.and_eq_true, Bool.not_eq_true'] at hreset
      exact ⟨by simpa using hempty, hreset.1.2, hreset.1.1, hreset.2⟩
  · rintro ⟨hempty, hdepends, hall, hdefault⟩
    rw [if_neg (by simp [hempty]), List.mem_filter]
    refine ⟨hh, ?_⟩
    rw [hvalue, hall, hdepends, hdefault]
    rfl

theorem foldlM_resets (hcube : cube.IsSound) (hctx : ctx.HasPlaces cube) {hs : List Hierarchy}
    (hhs : ∀ h ∈ hs, h ∈ cube.hierarchies) {copy? : Option Context}
    (hcopy : (copy?.getD ctx).HasPlaces cube) :
    hs.foldlM (fun simplified? h => do
        if ← c.resets ctx h then return some (← (simplified?.getD ctx).move h.defaultMember)
        else return simplified?) copy? =
      .ok ((hs.filter fun h => (c.resets ctx h).toOption.getD false).foldl
        (resetIn ctx) copy?) := by
  -- What is decided does not depend on the copy, so that the rest is walked from any copy.
  induction hs generalizing copy? with
  | nil => rfl
  | cons h rest ih =>
    rw [List.forall_mem_cons] at hhs
    obtain ⟨i, m, hi, hm⟩ := hctx.exists_current hhs.1
    have hresets := resets_eq (c := c) hcube hctx hi hm
    rw [List.foldlM_cons]
    cases hreset : !m.isAll && !c.dependsOn h && !(m == h.defaultMember) with
    | false =>
      rw [hreset] at hresets
      rw [List.filter_cons_of_neg (by simp [hresets, Except.toOption])]
      simp only [hresets]
      exact ih hhs.2 hcopy
    | true =>
      rw [hreset] at hresets
      have hmove := Context.move_eq_override (hcopy.reaches_default hcube hhs.1)
      rw [List.filter_cons_of_pos (by simp [hresets, Except.toOption]), List.foldl_cons]
      simp only [hresets, Outcome.ok_bind, if_true, hmove]
      exact ih hhs.2 (hcopy.override _)

/-- A context is simplified to a copy that is moved to the default members of all hierarchies that
are to be reset, or not at all if there are none. -/
theorem simplify?_eq (hcube : cube.IsSound) (hctx : ctx.HasPlaces cube) :
    c.simplify? ctx = .ok (if c.resettable ctx = [] then none
      else some (ctx.override ((c.resettable ctx).map Hierarchy.defaultMember))) := by
  rw [simplify?]
  by_cases hempty : ctx.nonEmpty = true
  · rw [if_pos hempty, resettable, if_pos hempty, if_pos rfl]
  · have hnone : ((none : Option Context).getD ctx).HasPlaces cube := hctx
    rw [if_neg hempty, foldlM_resets hcube hctx (fun h hh => hctx.cube_eq ▸ hh) hnone]
    congr 1
    rw [resettable, if_neg hempty]
    cases ctx.cube.hierarchies.filter fun h => (c.resets ctx h).toOption.getD false with
    | nil => rfl
    | cons h rest =>
      rw [if_neg (List.cons_ne_nil h rest), List.foldl_cons]
      exact foldl_resetIn rest _

/-! ### What stands where afterwards -/

def resetRow (c : Calc) (ctx : Context) : Tuple := (c.resettable ctx).map Hierarchy.defaultMember

theorem resettable_sublist : (c.resettable ctx).Sublist ctx.cube.hierarchies := by
  rw [resettable]
  split
  · exact List.nil_sublist _
  · exact List.filter_sublist

theorem defaultMember_hierarchy (hcube : cube.IsSound) (hh : h ∈ cube.hierarchies) :
    h.defaultMember.hierarchy = h.name :=
  hcube.isNamed h hh h.defaultMember (hcube.closed h hh).default_mem

theorem resetRow_names_nodup (hcube : cube.IsSound) (hctx : ctx.HasPlaces cube) :
    ((c.resetRow ctx).map Member.hierarchy).Nodup := by
  have hsublist : (c.resettable ctx).Sublist cube.hierarchies := hctx.cube_eq ▸ resettable_sublist
  have hnames : (c.resetRow ctx).map Member.hierarchy =
      (c.resettable ctx).map Hierarchy.name := by
    rw [resetRow, List.map_map]
    apply List.map_congr_left
    intro h hh
    exact defaultMember_hierarchy hcube (hsublist.subset hh)
  rw [hnames]
  exact hcube.names_nodup.sublist (hsublist.map Hierarchy.name)

theorem getElem?_resetRow_of_isReset (hcube : cube.IsSound) (hctx : ctx.HasPlaces cube)
    (hi : cube.hierarchies[i]? = some h) (hm : ctx.members[i]? = some m)
    (hreset : c.IsReset ctx h m) :
    (ctx.override (c.resetRow ctx)).members[i]? = some h.defaultMember := by
  have hh := List.mem_of_getElem? hi
  have hmem : h.defaultMember ∈ c.resetRow ctx :=
    List.mem_map_of_mem ((mem_resettable_iff hcube hctx hi hm).mpr hreset)
  have hplace : ctx.cube.ordinal? h.defaultMember.hierarchy = some i := by
    rw [defaultMember_hierarchy hcube hh, hctx.cube_eq]
    exact (hcube.ordinal?_eq_some_iff hh).mpr hi
  have hlt : i < ctx.members.length := (List.getElem?_eq_some_iff.mp hm).1
  exact Context.getElem?_override_of_mem (resetRow_names_nodup hcube hctx) hmem hplace hlt

theorem getElem?_resetRow_of_not_isReset (hcube : cube.IsSound) (hctx : ctx.HasPlaces cube)
    (hi : cube.hierarchies[i]? = some h) (hm : ctx.members[i]? = some m)
    (hreset : ¬c.IsReset ctx h m) :
    (ctx.override (c.resetRow ctx)).members[i]? = some m := by
  -- A default member that is placed at this position would be that of the same hierarchy.
  have hothers : ∀ n ∈ c.resetRow ctx, ctx.cube.ordinal? n.hierarchy ≠ some i := by
    intro n hn hplace
    obtain ⟨own, hown, rfl⟩ := List.mem_map.mp hn
    have hmem : own ∈ cube.hierarchies := hctx.cube_eq ▸ resettable_sublist.subset hown
    rw [defaultMember_hierarchy hcube hmem, hctx.cube_eq, hcube.ordinal?_eq_some_iff hmem] at hplace
    obtain rfl : h = own := Option.some.inj (hi.symm.trans hplace)
    exact hreset ((mem_resettable_iff hcube hctx hi hm).mp hown)
  rw [Context.getElem?_override_of_forall_ne hothers, hm]

/-- A context differs from another in the hierarchies that are to be reset there and in no other. It
stands at their default members. -/
structure ResetsExactly (c : Calc) (ctx simplified : Context) : Prop where
  cube_eq : simplified.cube = ctx.cube
  facts_eq : simplified.facts = ctx.facts
  nonEmpty_eq : simplified.nonEmpty = ctx.nonEmpty
  length_eq : simplified.members.length = ctx.members.length
  member : ∀ h ∈ ctx.cube.hierarchies, ∃ before after,
    ctx.member h = .ok before ∧ simplified.member h = .ok after ∧
      ((before == after) = false ↔ c.IsReset ctx h before) ∧
      (c.IsReset ctx h before → after = h.defaultMember) ∧
      (¬c.IsReset ctx h before → after = before)

theorem resetsExactly_override (hcube : cube.IsSound) (hctx : ctx.HasPlaces cube) :
    c.ResetsExactly ctx (ctx.override (c.resetRow ctx)) where
  cube_eq := rfl
  facts_eq := rfl
  nonEmpty_eq := rfl
  length_eq := Cube.length_foldl_place ctx.cube ctx.members _
  member h hh := by
    obtain ⟨i, m, hi, hm⟩ := hctx.exists_current (hctx.cube_eq ▸ hh : h ∈ cube.hierarchies)
    have hsimplified := hctx.override (c.resetRow ctx)
    by_cases hreset : c.IsReset ctx h m
    · have hafter := getElem?_resetRow_of_isReset hcube hctx hi hm hreset
      refine ⟨m, h.defaultMember, hctx.member_eq hcube hi hm, hsimplified.member_eq hcube hi hafter,
        ⟨fun _ => hreset, fun _ => hreset.beq_eq⟩, fun _ => rfl, fun hnot => absurd hreset hnot⟩
    · have hafter := getElem?_resetRow_of_not_isReset hcube hctx hi hm hreset
      refine ⟨m, m, hctx.member_eq hcube hi hm, hsimplified.member_eq hcube hi hafter,
        ⟨fun hne => ?_, fun h => absurd h hreset⟩, fun h => absurd h hreset, fun _ => rfl⟩
      rw [Member.beq_refl] at hne
      cases hne

theorem resettable_override (hcube : cube.IsSound) (hctx : ctx.HasPlaces cube) :
    c.resettable (ctx.override (c.resetRow ctx)) = [] := by
  rw [List.eq_nil_iff_forall_not_mem]
  intro h hmem
  have hsimplified := hctx.override (c.resetRow ctx)
  have hh : h ∈ cube.hierarchies := hsimplified.cube_eq ▸ resettable_sublist.subset hmem
  obtain ⟨i, m, hi, hm⟩ := hctx.exists_current hh
  by_cases hreset : c.IsReset ctx h m
  · have hafter := getElem?_resetRow_of_isReset hcube hctx hi hm hreset
    have hagain := ((mem_resettable_iff hcube hsimplified hi hafter).mp hmem).beq_eq
    rw [Member.beq_refl] at hagain
    cases hagain
  · have hafter := getElem?_resetRow_of_not_isReset hcube hctx hi hm hreset
    have hagain := (mem_resettable_iff hcube hsimplified hi hafter).mp hmem
    exact hreset ⟨hagain.nonEmpty_eq, hagain.dependsOn_eq, hagain.isAll_eq, hagain.beq_eq⟩

theorem resettable_ne_nil_iff (hcube : cube.IsSound) (hctx : ctx.HasPlaces cube) :
    c.resettable ctx ≠ [] ↔
      ∃ h ∈ cube.hierarchies, ∃ m, ctx.member h = .ok m ∧ c.IsReset ctx h m := by
  constructor
  · intro hne
    obtain ⟨h, hmem⟩ := List.exists_mem_of_ne_nil _ hne
    have hh : h ∈ cube.hierarchies := hctx.cube_eq ▸ resettable_sublist.subset hmem
    obtain ⟨i, m, hi, hm⟩ := hctx.exists_current hh
    exact ⟨h, hh, m, hctx.member_eq hcube hi hm, (mem_resettable_iff hcube hctx hi hm).mp hmem⟩
  · rintro ⟨h, hh, m, hmember, hreset⟩
    obtain ⟨i, own, hi, hown⟩ := hctx.exists_current hh
    obtain rfl : own = m := by
      rw [hctx.member_eq hcube hi hown] at hmember
      exact Except.ok.inj hmember
    exact List.ne_nil_of_mem ((mem_resettable_iff hcube hctx hi hown).mpr hreset)

end Calc

/-! ### Copies among evaluators -/

/-- Somebody's context, with the number of times that it was copied. -/
structure Evaluator where
  context : Context
  depth : Nat

namespace Evaluator

/-- Evaluators are known by their places, so that what is written to one can be told from what is
written to another. -/
def at? (evaluators : List Evaluator) (place : Nat) : Outcome Evaluator :=
  match evaluators[place]? with
  | some evaluator => .ok evaluator
  | none => violate .outOfRange

def push (evaluators : List Evaluator) (place : Nat) : Outcome (List Evaluator) := do
  let evaluator ← at? evaluators place
  return evaluators ++ [⟨evaluator.context, evaluator.depth + 1⟩]

def setContext (evaluators : List Evaluator) (place : Nat) (m : Member) :
    Outcome (List Evaluator) := do
  let evaluator ← at? evaluators place
  let moved ← evaluator.context.move m
  return evaluators.set place ⟨moved, evaluator.depth⟩

end Evaluator

namespace Calc

variable {c : Calc} {evaluators : List Evaluator} {caller depth : Nat}

/-- Reads the caller, and writes to the copy if the hierarchy is reset. -/
def resetStep (c : Calc) (caller : Nat) (state : List Evaluator × Option Nat) (h : Hierarchy) :
    Outcome (List Evaluator × Option Nat) := do
  let evaluator ← Evaluator.at? state.1 caller
  if ← c.resets evaluator.context h then
    match state.2 with
    | some copy => return (← Evaluator.setContext state.1 copy h.defaultMember, some copy)
    | none =>
      let pushed ← Evaluator.push state.1 caller
      return (← Evaluator.setContext pushed state.1.length h.defaultMember, some state.1.length)
  else return state

/-- Simplifies the context of an evaluator, with the place of the evaluator that has it then. -/
def simplifyAt (c : Calc) (evaluators : List Evaluator) (caller : Nat) :
    Outcome (List Evaluator × Nat) := do
  let evaluator ← Evaluator.at? evaluators caller
  if evaluator.context.nonEmpty then return (evaluators, caller)
  else
    let (written, copy?) ← evaluator.context.cube.hierarchies.foldlM (c.resetStep caller)
      (evaluators, none)
    return (written, copy?.getD caller)

def written (evaluators : List Evaluator) (depth : Nat) :
    Option Context → List Evaluator × Option Nat
  | none => (evaluators, none)
  | some simplified => (evaluators ++ [⟨simplified, depth + 1⟩], some evaluators.length)

/-- All evaluators as they were and the copy if there is one, with the place of the copy or else the
caller's own. -/
def handedBack (evaluators : List Evaluator) (caller depth : Nat) (copy? : Option Context) :
    List Evaluator × Nat :=
  ((written evaluators depth copy?).1, (written evaluators depth copy?).2.getD caller)

theorem at?_written (hcaller : evaluators[caller]? = some ⟨ctx, depth⟩) (copy? : Option Context) :
    Evaluator.at? (written evaluators depth copy?).1 caller = .ok ⟨ctx, depth⟩ := by
  have hlt : caller < evaluators.length := (List.getElem?_eq_some_iff.mp hcaller).1
  cases copy? with
  | none => rw [written, Evaluator.at?, hcaller]
  | some simplified => rw [written, Evaluator.at?, List.getElem?_append_left hlt, hcaller]

theorem push_eq_written (hcaller : evaluators[caller]? = some ⟨ctx, depth⟩) :
    Evaluator.push evaluators caller = .ok (written evaluators depth (some ctx)).1 := by
  rw [Evaluator.push, Evaluator.at?, hcaller]
  rfl

theorem setContext_written (evaluators : List Evaluator) (depth : Nat) (here : Context)
    (m : Member) :
    Evaluator.setContext (written evaluators depth (some here)).1 evaluators.length m =
      (here.move m).map fun moved => (written evaluators depth (some moved)).1 := by
  have hat : Evaluator.at? (written evaluators depth (some here)).1 evaluators.length =
      .ok ⟨here, depth + 1⟩ := by
    simp [Evaluator.at?, written]
  rw [Evaluator.setContext, hat, Outcome.ok_bind]
  cases here.move m with
  | error failure => rfl
  | ok moved =>
    rw [Outcome.ok_bind, Outcome.map_ok]
    simp [written, pure, Except.pure]

/-- The caller is never written to, so that a step comes to the same as with the copy by itself. -/
theorem resetStep_written (hcaller : evaluators[caller]? = some ⟨ctx, depth⟩)
    (copy? : Option Context) (h : Hierarchy) :
    c.resetStep caller (written evaluators depth copy?) h =
      Except.map (written evaluators depth) (do
        if ← c.resets ctx h then return some (← (copy?.getD ctx).move h.defaultMember)
        else return copy?) := by
  rw [resetStep, at?_written hcaller, Outcome.ok_bind]
  cases c.resets ctx h with
  | error failure => rfl
  | ok reset =>
    cases reset with
    | false => rfl
    | true =>
      simp only [Outcome.ok_bind, if_true]
      cases copy? with
      | some here =>
        have hset := setContext_written evaluators depth here h.defaultMember
        change (do return (← Evaluator.setContext _ evaluators.length h.defaultMember, _)) = _
        rw [hset, Option.getD_some]
        cases here.move h.defaultMember <;> rfl
      | none =>
        have hset := setContext_written evaluators depth ctx h.defaultMember
        change (do
          let pushed ← Evaluator.push evaluators caller
          return (← Evaluator.setContext pushed evaluators.length h.defaultMember, _)) = _
        rw [push_eq_written hcaller, Outcome.ok_bind, hset, Option.getD_none]
        cases ctx.move h.defaultMember <;> rfl

theorem simplifyAt_eq (hcaller : evaluators[caller]? = some ⟨ctx, depth⟩) :
    c.simplifyAt evaluators caller =
      (c.simplify? ctx).map (handedBack evaluators caller depth) := by
  rw [simplifyAt, Evaluator.at?, hcaller, Outcome.ok_bind, simplify?]
  by_cases hempty : ctx.nonEmpty = true
  · rw [if_pos hempty, if_pos hempty]
    rfl
  · have hwalk := Outcome.foldlM_map (resetStep_written (c := c) hcaller) ctx.cube.hierarchies none
    change ctx.cube.hierarchies.foldlM (c.resetStep caller) (evaluators, none) = _ at hwalk
    rw [if_neg hempty, if_neg hempty, hwalk, Outcome.bind_map]
    rfl

theorem exists_at_handedBack (hcaller : evaluators[caller]? = some ⟨ctx, depth⟩)
    (copy? : Option Context) : ∃ depth', (handedBack evaluators caller depth copy?).1[
      (handedBack evaluators caller depth copy?).2]? = some ⟨copy?.getD ctx, depth'⟩ := by
  cases copy? with
  | none => exact ⟨depth, hcaller⟩
  | some simplified =>
    refine ⟨depth + 1, ?_⟩
    rw [handedBack, written, Option.getD_some, Option.getD_some, List.getElem?_concat_length]

/-- To simplify the context of an evaluator resets what does not matter and nothing else, in a copy
that is made once and only if there is something to reset. The other evaluators are left alone, and
there is nothing left to reset. -/
theorem simplification_resets_exactly (hcube : cube.IsSound) (hctx : ctx.HasPlaces cube) (c : Calc)
    (hcaller : evaluators[caller]? = some ⟨ctx, depth⟩) :
    ∃ copy? : Option Context, c.simplify? ctx = .ok copy? ∧
      c.ResetsExactly ctx (copy?.getD ctx) ∧
      (copy?.isSome = true ↔
        ∃ h ∈ cube.hierarchies, ∃ m, ctx.member h = .ok m ∧ c.IsReset ctx h m) ∧
      c.simplify? (copy?.getD ctx) = .ok none ∧
      c.simplifyAt evaluators caller = .ok (handedBack evaluators caller depth copy?) ∧
      c.simplifyAt (handedBack evaluators caller depth copy?).1
          (handedBack evaluators caller depth copy?).2 =
        .ok (handedBack evaluators caller depth copy?) := by
  have hsimplify := simplify?_eq (c := c) hcube hctx
  have hsimplified := hctx.override (c.resetRow ctx)
  obtain ⟨copy?, hcopy, hresult, hsome⟩ : ∃ copy? : Option Context, c.simplify? ctx = .ok copy? ∧
      copy?.getD ctx = ctx.override (c.resetRow ctx) ∧
      (copy?.isSome = true ↔ c.resettable ctx ≠ []) := by
    refine ⟨_, hsimplify, ?_⟩
    by_cases hnil : c.resettable ctx = []
    · rw [if_pos hnil, resetRow, hnil]
      exact ⟨rfl, by simp⟩
    · rw [if_neg hnil]
      exact ⟨rfl, by simp [hnil]⟩
  have hagain : c.simplify? (copy?.getD ctx) = .ok none := by
    rw [hresult, simplify?_eq hcube hsimplified, resettable_override hcube hctx, if_pos rfl]
  obtain ⟨depth', hplace⟩ := exists_at_handedBack hcaller copy?
  refine ⟨copy?, hcopy, ?_, ?_, hagain, ?_, ?_⟩
  · rw [hresult]
    exact resetsExactly_override hcube hctx
  · rw [hsome, resettable_ne_nil_iff hcube hctx]
  · rw [simplifyAt_eq hcaller, hcopy, Outcome.map_ok]
  · rw [simplifyAt_eq hplace, hagain]
    rfl

end Calc

namespace Sales

/-- Nothing sold yet, seen from Bergen in the first year. -/
def inBergen : Context := ⟨.sales, .empty 2, [firstYear, bergen], false⟩

theorem inBergen_simplified : ∃ copy? : Option Context,
    (Calc.currentMember time).simplify? inBergen = .ok copy? ∧
      copy?.map Context.members = some [firstYear, oslo] ∧
      (Calc.currentMember time).ResetsExactly inBergen (copy?.getD inBergen) ∧
      (Calc.currentMember time).simplify? (copy?.getD inBergen) = .ok none := by
  have hcaller : [(⟨inBergen, 0⟩ : Evaluator)][0]? = some ⟨inBergen, 0⟩ := rfl
  obtain ⟨copy?, hcopy, hresets, -, hagain, -, -⟩ := Calc.simplification_resets_exactly
    Cube.sales_isSound ⟨rfl, rfl⟩ (.currentMember time) hcaller
  refine ⟨copy?, hcopy, ?_, hresets, hagain⟩
  have hvalue : (Calc.currentMember time).simplify? inBergen =
      .ok (some { inBergen with members := [firstYear, oslo] }) := rfl
  rw [hvalue] at hcopy
  obtain rfl := Except.ok.inj hcopy
  rfl

end Sales

end CubeCalc
