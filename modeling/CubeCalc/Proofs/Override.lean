import CubeCalc.Proofs.Context
/-!
# Contexts overridden by a tuple

To move a context to a tuple is to put each of the tuple's members into its place, the columns one
after the other, or to fail where a member has no place. What stood in these places before is lost,
so a context that has been moved to one tuple can be moved to another of the same hierarchies as if
it were the context before.
-/

namespace CubeCalc

open Outcome

/-- Puts a member into the place of its hierarchy, if there is one. -/
def Cube.place (cube : Cube) (members : List Member) (m : Member) : List Member :=
  match cube.ordinal? m.hierarchy with
  | some i => members.set i m
  | none => members

namespace Cube

variable {cube : Cube} {members others : List Member} {row : Tuple}

@[simp]
theorem length_place (cube : Cube) (members : List Member) (m : Member) :
    (cube.place members m).length = members.length := by
  unfold place
  split <;> simp

@[simp]
theorem length_foldl_place (cube : Cube) (members : List Member) (row : Tuple) :
    (row.foldl cube.place members).length = members.length := by
  induction row generalizing members with
  | nil => rfl
  | cons m rest ih => rw [List.foldl_cons, ih, length_place]

theorem getElem?_place_of_ne {m : Member} {i : Nat} (hi : cube.ordinal? m.hierarchy ≠ some i) :
    (cube.place members m)[i]? = members[i]? := by
  unfold place
  split
  · next j hj =>
    have hne : j ≠ i := fun heq => hi (heq ▸ hj)
    rw [List.getElem?_set_ne hne]
  · rfl

theorem getElem?_foldl_place_of_forall_ne {i : Nat}
    (hrow : ∀ m ∈ row, cube.ordinal? m.hierarchy ≠ some i) :
    (row.foldl cube.place members)[i]? = members[i]? := by
  induction row generalizing members with
  | nil => rfl
  | cons m rest ih =>
    rw [List.forall_mem_cons] at hrow
    rw [List.foldl_cons, ih hrow.2, getElem?_place_of_ne hrow.1]

/-- Members that differ only where a tuple has its own are overridden alike. -/
theorem foldl_place_congr (hlength : members.length = others.length)
    (hsame : ∀ i, (∀ m ∈ row, cube.ordinal? m.hierarchy ≠ some i) → members[i]? = others[i]?) :
    row.foldl cube.place members = row.foldl cube.place others := by
  induction row generalizing members others with
  | nil =>
    apply List.ext_getElem?
    intro i
    exact hsame i (by simp)
  | cons m rest ih =>
    rw [List.foldl_cons, List.foldl_cons]
    apply ih (by simp [hlength])
    intro i hrest
    by_cases hi : cube.ordinal? m.hierarchy = some i
    · -- Both have the member of this column in its place now.
      simp only [place, hi, List.getElem?_set, if_true, hlength]
    · rw [getElem?_place_of_ne hi, getElem?_place_of_ne hi]
      exact hsame i (List.forall_mem_cons.mpr ⟨hi, hrest⟩)

end Cube

namespace Context

/-- There is a place for the member. -/
def Reaches (ctx : Context) (m : Member) : Prop :=
  ∃ i, ctx.cube.ordinal? m.hierarchy = some i ∧ i < ctx.members.length

instance (ctx : Context) (m : Member) : Decidable (ctx.Reaches m) :=
  decidable_of_iff ((ctx.cube.ordinal? m.hierarchy).any (· < ctx.members.length)) <| by
    simp [Reaches, Option.any_eq_true]

/-- The context with the members of a tuple set in column order. -/
def override (ctx : Context) (row : Tuple) : Context :=
  { ctx with members := row.foldl ctx.cube.place ctx.members }

variable {ctx here moved : Context} {m : Member} {row before : Tuple}

@[simp]
theorem override_cube (ctx : Context) (row : Tuple) : (ctx.override row).cube = ctx.cube := rfl

@[simp]
theorem override_facts (ctx : Context) (row : Tuple) : (ctx.override row).facts = ctx.facts := rfl

theorem override_cons (ctx : Context) (m : Member) (rest : Tuple) :
    ctx.override (m :: rest) = (ctx.override [m]).override rest := rfl

@[simp]
theorem reaches_override : (ctx.override row).Reaches m ↔ ctx.Reaches m := by
  unfold Reaches override
  rw [Cube.length_foldl_place]

/-- One tuple leaves nothing of another that has no hierarchies of its own. -/
theorem override_override (hbefore : ∀ m ∈ before, ∃ n ∈ row, n.hierarchy = m.hierarchy) :
    (ctx.override before).override row = ctx.override row := by
  have hmembers : row.foldl ctx.cube.place (before.foldl ctx.cube.place ctx.members) =
      row.foldl ctx.cube.place ctx.members := by
    apply Cube.foldl_place_congr (by simp)
    intro i hrow
    apply Cube.getElem?_foldl_place_of_forall_ne
    intro m hm
    obtain ⟨n, hn, hname⟩ := hbefore m hm
    exact hname ▸ hrow n hn
  simp only [override, hmembers]

/-! ### Moves -/

theorem move_eq_override (hm : ctx.Reaches m) : ctx.move m = .ok (ctx.override [m]) := by
  obtain ⟨i, hi, hlt⟩ := hm
  simp [move, override, Cube.place, hi, hlt]

theorem reaches_of_move (hmove : ctx.move m = .ok moved) : ctx.Reaches m := by
  rw [move] at hmove
  split at hmove
  · simp [violate] at hmove
  · next i hi =>
    split at hmove
    · next hlt => exact ⟨i, hi, hlt⟩
    · simp [violate] at hmove

theorem moveAll_cons (ctx : Context) (m : Member) (rest : Tuple) :
    ctx.moveAll (m :: rest) = ctx.move m >>= fun here => here.moveAll rest := by
  rw [moveAll, List.foldlM_cons]
  rfl

theorem moveAll_eq_override (hrow : ∀ m ∈ row, ctx.Reaches m) :
    ctx.moveAll row = .ok (ctx.override row) := by
  induction row generalizing ctx with
  | nil => rfl
  | cons m rest ih =>
    rw [List.forall_mem_cons] at hrow
    rw [moveAll_cons, move_eq_override hrow.1, Outcome.ok_bind, override_cons]
    have hrest : ∀ n ∈ rest, (ctx.override [m]).Reaches n := fun n hn =>
      reaches_override.mpr (hrow.2 n hn)
    exact ih hrest

theorem reaches_of_moveAll (hmove : ctx.moveAll row = .ok moved) : ∀ m ∈ row, ctx.Reaches m := by
  induction row generalizing ctx with
  | nil => simp
  | cons m rest ih =>
    rw [moveAll_cons, bind_eq_ok_iff] at hmove
    obtain ⟨first, hfirst, hrest⟩ := hmove
    have hm := reaches_of_move hfirst
    obtain rfl : ctx.override [m] = first := Except.ok.inj ((move_eq_override hm).symm.trans hfirst)
    exact List.forall_mem_cons.mpr ⟨hm, fun n hn => reaches_override.mp (ih hrest n hn)⟩

/-- A context moves to a tuple if there is a place for each member. -/
theorem moveAll_eq_ok_iff :
    ctx.moveAll row = .ok moved ↔ (∀ m ∈ row, ctx.Reaches m) ∧ moved = ctx.override row := by
  constructor
  · intro hmove
    have hrow := reaches_of_moveAll hmove
    exact ⟨hrow, (Except.ok.inj ((moveAll_eq_override hrow).symm.trans hmove)).symm⟩
  · rintro ⟨hrow, rfl⟩
    exact moveAll_eq_override hrow

/-- From where one tuple has led, another one of the same hierarchies leads to where it leads from
the beginning. -/
theorem moveAll_of_moveAll (hbefore : ctx.moveAll before = .ok here)
    (hnames : before.map Member.hierarchy = row.map Member.hierarchy) :
    here.moveAll row = ctx.moveAll row := by
  obtain ⟨hreaches, rfl⟩ := moveAll_eq_ok_iff.mp hbefore
  have hback : ∀ m ∈ before, ∃ n ∈ row, n.hierarchy = m.hierarchy := by
    intro m hm
    exact List.mem_map.mp (hnames ▸ List.mem_map_of_mem hm)
  have hrow : ∀ n ∈ row, ctx.Reaches n := by
    intro n hn
    obtain ⟨m, hm, hname⟩ := List.mem_map.mp (hnames.symm ▸ List.mem_map_of_mem hn :
      n.hierarchy ∈ before.map Member.hierarchy)
    obtain ⟨i, hi, hlt⟩ := hreaches m hm
    exact ⟨i, hname ▸ hi, hlt⟩
  rw [moveAll_eq_override hrow, moveAll_eq_override fun n hn => reaches_override.mpr (hrow n hn),
    override_override hback]

end Context

end CubeCalc
