import CubeCalc.Proofs.Forest
import CubeCalc.Proofs.RollUp
import Mathlib.Algebra.BigOperators.Group.List.Basic
import Mathlib.Algebra.Group.WithOne.Defs
import Mathlib.Algebra.Order.Monoid.Unbundled.WithTop
/-!
# Additivity of the roll-up

A cell above the leaves is what the cells below it come to, whichever of its members is broken down
into its children. Each fact below the cell lies below one of the children, because the children of
a member part its leaves. Numbers are added exactly, so that the order of the facts is immaterial.
-/

namespace CubeCalc

/-! ### Cells taken together -/

namespace CellValue

variable {α : Type}

/-- There is no number to be had from a text or an error. -/
def isRefusal : CellValue α → Bool
  | .text _ | .error _ => true
  | _ => false

variable [AddCommMonoid α] [One α]

/-- Cells taken together: an error if one of them is a text or an error, nothing if all are empty,
and the sum of their numbers otherwise. -/
def combined (cells : List (CellValue α)) : CellValue α :=
  if cells.any isRefusal then .error .value
  else if cells.all isEmpty then .empty
  else .number (cells.filterMap asNumber?).sum

/-- What a cell adds: nothing if it is empty, and more than any number if it has none. -/
def weight : CellValue α → WithTop (WithZero α)
  | .empty => 0
  | .number x => ((x : WithZero α) : WithTop (WithZero α))
  | .boolean b => (((if b then 1 else 0 : α) : WithZero α) : WithTop (WithZero α))
  | .text _ | .error _ => ⊤

def ofWeight : WithTop (WithZero α) → CellValue α
  | none => .error .value
  | some none => .empty
  | some (some x) => .number x

theorem weight_ofWeight (w : WithTop (WithZero α)) : (ofWeight w).weight = w := by
  match w with
  | none => rfl
  | some none => rfl
  | some (some x) => rfl

/-- A cell is refused, or it is empty, or it has a number. -/
theorem weight_cases (cell : CellValue α) :
    cell.isRefusal = true ∧ cell.weight = ⊤ ∨
    cell.isRefusal = false ∧ cell.isEmpty = true ∧ cell.asNumber? = none ∧ cell.weight = 0 ∨
    ∃ x, cell.isRefusal = false ∧ cell.isEmpty = false ∧ cell.asNumber? = some x ∧
      cell.weight = ((x : WithZero α) : WithTop (WithZero α)) := by
  cases cell with
  | text s => exact .inl ⟨rfl, rfl⟩
  | error cause => exact .inl ⟨rfl, rfl⟩
  | empty => exact .inr (.inl ⟨rfl, rfl, rfl, rfl⟩)
  | number x => exact .inr (.inr ⟨x, rfl, rfl, rfl, rfl⟩)
  | boolean b => exact .inr (.inr ⟨_, rfl, rfl, rfl, rfl⟩)

theorem filterMap_asNumber?_of_all_isEmpty {cells : List (CellValue α)}
    (hcells : cells.all isEmpty = true) : cells.filterMap asNumber? = [] := by
  rw [List.filterMap_eq_nil_iff]
  intro cell hcell
  have hempty := List.all_eq_true.mp hcells cell hcell
  cases cell <;> first | rfl | cases hempty

theorem sum_weight (cells : List (CellValue α)) : (cells.map weight).sum =
    if cells.any isRefusal then ⊤
    else if cells.all isEmpty then 0
    else (((cells.filterMap asNumber?).sum : WithZero α) : WithTop (WithZero α)) := by
  induction cells with
  | nil => rfl
  | cons cell rest ih =>
    rw [List.map_cons, List.sum_cons, List.any_cons, List.all_cons, List.filterMap_cons, ih]
    rcases cell.weight_cases with ⟨hrefused, hweight⟩ | ⟨hnot, hempty, hnone, hweight⟩ |
      ⟨x, hnot, hfull, hsome, hweight⟩
    · rw [hrefused, hweight, Bool.true_or, if_pos rfl, WithTop.top_add]
    · rw [hnot, hempty, hnone, hweight, Bool.false_or, Bool.true_and, zero_add]
    · rw [hnot, hfull, hsome, hweight, Bool.false_or, Bool.false_and, List.sum_cons]
      by_cases hany : rest.any isRefusal = true
      · rw [if_pos hany, if_pos hany, WithTop.add_top]
      · rw [if_neg hany, if_neg hany, if_neg Bool.false_ne_true]
        -- With an empty rest the number stands alone, and it is a number even if it is zero.
        by_cases hall : rest.all isEmpty = true
        · rw [if_pos hall, filterMap_asNumber?_of_all_isEmpty hall, List.sum_nil, add_zero,
            add_zero]
        · rw [if_neg hall]
          rfl

theorem combined_eq (cells : List (CellValue α)) :
    combined cells = ofWeight (cells.map weight).sum := by
  rw [sum_weight, combined]
  split
  · rfl
  · split <;> rfl

end CellValue

/-! ### Facts below a coordinate -/

namespace FactTable

open CellValue

variable {α : Type} [AddCommMonoid α] [One α]

/-- Facts all have numbers unless one is refused, since none of them is empty. -/
theorem mapM_asNumber? {facts : List (CellValue α)}
    (hfacts : ∀ fact ∈ facts, fact.isEmpty = false) : facts.mapM asNumber? =
      if facts.any isRefusal then none else some (facts.filterMap asNumber?) := by
  induction facts with
  | nil => rfl
  | cons fact rest ih =>
    rw [List.forall_mem_cons] at hfacts
    rw [List.mapM_cons, ih hfacts.2, List.any_cons, List.filterMap_cons]
    cases fact with
    | empty => cases hfacts.1
    | text s => rfl
    | error cause => rfl
    | number x => cases rest.any isRefusal <;> rfl
    | boolean b => cases rest.any isRefusal <;> rfl

theorem total_eq_combined {facts : List (CellValue α)}
    (hfacts : ∀ fact ∈ facts, fact.isEmpty = false) : total facts = combined facts := by
  rw [total, mapM_asNumber? hfacts, combined]
  by_cases hany : facts.any isRefusal = true
  · rw [if_pos hany, if_pos hany]
  · rw [if_neg hany, if_neg hany]
    cases facts with
    | nil => rfl
    | cons fact rest =>
      have hfull := hfacts fact List.mem_cons_self
      obtain ⟨x, hx⟩ : ∃ x, fact.asNumber? = some x := by
        cases fact with
        | empty => cases hfull
        | number x => exact ⟨x, rfl⟩
        | boolean b => exact ⟨_, rfl⟩
        | text s => simp [isRefusal] at hany
        | error cause => simp [isRefusal] at hany
      rw [List.all_cons, hfull, Bool.false_and, if_neg Bool.false_ne_true, List.filterMap_cons, hx,
        List.sum_eq_foldl]

/-- What is selected from a list adds what it adds in parts, if each element is in one of them just
if it is selected. -/
theorem sum_filter_eq_sum_sum {β γ M : Type} [AddCommMonoid M] {w : β → M} {q : β → Bool}
    {r : γ → β → Bool} {cs : List γ} {l : List β}
    (hl : ∀ x ∈ l, (cs.map fun c => if r c x then w x else 0).sum = if q x then w x else 0) :
    ((l.filter q).map w).sum = (cs.map fun c => ((l.filter (r c)).map w).sum).sum := by
  have hfilter : ∀ (p : β → Bool) (x : β) (rest : List β), (((x :: rest).filter p).map w).sum =
      (if p x then w x else 0) + ((rest.filter p).map w).sum := by
    intro p x rest
    by_cases hx : p x = true <;> simp [hx]
  induction l with
  | nil => simp
  | cons x rest ih =>
    rw [List.forall_mem_cons] at hl
    simp only [hfilter]
    rw [List.sum_map_add, hl.1, ih hl.2]

/-- An element that is in one part at most is counted once or not at all. -/
theorem sum_ite_eq {γ M : Type} [AddCommMonoid M] (w : M) {r : γ → Bool} {cs : List γ}
    (hcs : cs.Nodup) (hone : ∀ c ∈ cs, ∀ d ∈ cs, r c = true → r d = true → c = d) :
    (cs.map fun c => if r c then w else 0).sum = if cs.any r then w else 0 := by
  induction cs with
  | nil => rfl
  | cons c rest ih =>
    rw [List.nodup_cons] at hcs
    have hrest := ih hcs.2 fun d hd e he => hone d (List.mem_cons_of_mem c hd) e
      (List.mem_cons_of_mem c he)
    rw [List.map_cons, List.sum_cons, hrest, List.any_cons]
    by_cases hc : r c = true
    · have hnone : rest.any r = false := by
        rw [List.any_eq_false]
        intro d hd hrd
        obtain rfl := hone c List.mem_cons_self d (List.mem_cons_of_mem c hd) hc hrd
        exact hcs.1 hd
      rw [hc, hnone, Bool.true_or, if_pos rfl, if_neg Bool.false_ne_true, add_zero]
    · rw [Bool.not_eq_true] at hc
      rw [hc, Bool.false_or, if_neg Bool.false_ne_true, zero_add]

end FactTable

/-! ### Children part the leaves -/

namespace Hierarchy.IsRooted

variable {h : Hierarchy} {p k c d : Member}

/-- A leaf is above nothing but itself. -/
theorem eq_of_leaf_above (hh : h.IsRooted) (hp : p ∈ h.members) (hleaf : h.children p = [])
    (hk : k ∈ h.members) (habove : p.isAncestorOrSelf k = true) : p = k := by
  rcases List.mem_cons.mp ((hh.isAncestorOrSelf_iff hp hk).mp habove) with rfl | hup
  · rfl
  · obtain ⟨c, hc, hparent⟩ := Member.exists_parent?_eq_of_mem_ancestors hup
    have hchild : c ∈ h.children p :=
      (hh.mem_children_iff hp).mpr ⟨hh.mem_of_mem_line hk hc, hparent⟩
    rw [hleaf] at hchild
    cases hchild

/-- What is above a leaf, and is none, has a child above the leaf. -/
theorem above_iff_child_above (hh : h.IsRooted) (hp : p ∈ h.members) (hparts : h.children p ≠ [])
    (hk : k ∈ h.members) (hleaf : h.children k = []) :
    p.isAncestorOrSelf k = true ↔ ∃ c ∈ h.children p, c.isAncestorOrSelf k = true := by
  rw [hh.isAncestorOrSelf_iff hp hk]
  constructor
  · intro hline
    rcases List.mem_cons.mp hline with rfl | hup
    · exact absurd hleaf hparts
    · obtain ⟨c, hc, hparent⟩ := Member.exists_parent?_eq_of_mem_ancestors hup
      have hmem := hh.mem_of_mem_line hk hc
      exact ⟨c, (hh.mem_children_iff hp).mpr ⟨hmem, hparent⟩,
        (hh.isAncestorOrSelf_iff hmem hk).mpr hc⟩
  · rintro ⟨c, hc, habove⟩
    obtain ⟨hmem, hparent⟩ := (hh.mem_children_iff hp).mp hc
    exact Member.mem_line_trans (Member.mem_line_of_parent? hparent)
      ((hh.isAncestorOrSelf_iff hmem hk).mp habove)

/-- No two children of a member are above one leaf. -/
theorem eq_of_children_above (hh : h.IsRooted) (hp : p ∈ h.members) (hc : c ∈ h.children p)
    (hd : d ∈ h.children p) (hk : k ∈ h.members) (hck : c.isAncestorOrSelf k = true)
    (hdk : d.isAncestorOrSelf k = true) : c = d := by
  obtain ⟨hmem, hparent⟩ := (hh.mem_children_iff hp).mp hc
  obtain ⟨hmem', hparent'⟩ := (hh.mem_children_iff hp).mp hd
  refine Member.eq_of_mem_line ((hh.isAncestorOrSelf_iff hmem hk).mp hck)
    ((hh.isAncestorOrSelf_iff hmem' hk).mp hdk) ?_
  rw [Member.depth_of_parent? hparent, Member.depth_of_parent? hparent']

end Hierarchy.IsRooted

/-! ### Coordinates -/

namespace Cube

/-- A member of each hierarchy, in the order of the hierarchies. -/
def IsCoordinate (cube : Cube) (row : List Member) : Prop :=
  List.Forall₂ (fun m h => m ∈ Hierarchy.members h) row cube.hierarchies

/-- A coordinate of members without children. -/
def IsLeaf (cube : Cube) (row : List Member) : Prop :=
  List.Forall₂ (fun m h => m ∈ Hierarchy.members h ∧ h.children m = []) row cube.hierarchies

/-- The hierarchies come from builders, each with members of distinct unique names. -/
def IsBuilt (cube : Cube) : Prop := ∀ h ∈ cube.hierarchies, h.IsBuilt

variable {cube : Cube} {row key : List Member} {i : Nat} {h : Hierarchy} {p : Member}

theorem IsLeaf.isCoordinate (hkey : cube.IsLeaf key) : cube.IsCoordinate key :=
  hkey.imp fun _ _ hm => hm.1

theorem exists_getElem?_of_forall₂ {R : Member → Hierarchy → Prop} {hs : List Hierarchy}
    (hrow : List.Forall₂ R row hs) (hi : hs[i]? = some h) : ∃ m, row[i]? = some m ∧ R m h := by
  induction hrow generalizing i with
  | nil => cases hi
  | cons hm _ ih =>
    cases i with
    | zero =>
      obtain rfl := Option.some.inj hi
      exact ⟨_, rfl, hm⟩
    | succ i => exact ih hi

theorem of_getElem?_of_forall₂ {R : Member → Hierarchy → Prop} {hs : List Hierarchy}
    (hrow : List.Forall₂ R row hs) (hi : hs[i]? = some h) (hp : row[i]? = some p) : R p h := by
  obtain ⟨m, hm, hR⟩ := exists_getElem?_of_forall₂ hrow hi
  obtain rfl : m = p := Option.some.inj (hm.symm.trans hp)
  exact hR

theorem IsCoordinate.set (hrow : cube.IsCoordinate row) (hi : cube.hierarchies[i]? = some h)
    (hp : p ∈ h.members) : cube.IsCoordinate (row.set i p) := by
  rw [IsCoordinate] at hrow ⊢
  generalize cube.hierarchies = hs at hrow hi
  induction hrow generalizing i with
  | nil => exact .nil
  | cons hm hrest ih =>
    cases i with
    | zero =>
      obtain rfl := Option.some.inj hi
      exact .cons hp hrest
    | succ i => exact .cons hm (ih hi)

theorem beq_coordinate_refl (row : List Member) : (row == row) = true := by
  induction row with
  | nil => rfl
  | cons m rest ih => exact Bool.and_eq_true_iff.mpr ⟨m.beq_refl, ih⟩

/-- Coordinates of equal members are the same. -/
theorem eq_of_beq_coordinate (hcube : cube.IsBuilt) (hkey : cube.IsCoordinate key)
    (hrow : cube.IsCoordinate row) (heq : (key == row) = true) : key = row := by
  rw [IsBuilt] at hcube
  rw [IsCoordinate] at hkey hrow
  generalize cube.hierarchies = hs at hcube hkey hrow
  induction hrow generalizing key with
  | nil =>
    cases hkey
    rfl
  | cons hm _ ih =>
    obtain ⟨k, rest, hk, hrest, rfl⟩ := List.forall₂_cons_right_iff.mp hkey
    rw [List.forall_mem_cons] at hcube
    have hboth : (k == _) = true ∧ (rest == _) = true := Bool.and_eq_true_iff.mp heq
    rw [hcube.1.isRooted.eq_of_beq hk hm hboth.1, ih hboth.2 hcube.2 hrest]

end Cube

namespace FactTable

open CellValue

variable {cube : Cube} {row key : List Member} {i : Nat} {h : Hierarchy} {p : Member}

/-- A leaf covers no other leaf. -/
theorem covers_leaf_iff (hcube : cube.IsBuilt) (hrow : cube.IsLeaf row) (hkey : cube.IsLeaf key) :
    covers row key = true ↔ row = key := by
  rw [covers_iff]
  constructor
  · -- Column by column a leaf is above no leaf but itself.
    intro hcovers
    refine List.ext_getElem? fun i => ?_
    cases hi : cube.hierarchies[i]? with
    | none =>
      rw [List.getElem?_eq_none_iff] at hi
      rw [List.getElem?_eq_none (hrow.length_eq.trans_le hi),
        List.getElem?_eq_none (hkey.length_eq.trans_le hi)]
    | some h =>
      have hrooted := (hcube h (List.mem_of_getElem? hi)).isRooted
      obtain ⟨m, hm, hmem, hleaf⟩ := Cube.exists_getElem?_of_forall₂ hrow hi
      obtain ⟨k, hk, hkmem, -⟩ := Cube.exists_getElem?_of_forall₂ hkey hi
      rw [hm, hk, hrooted.eq_of_leaf_above hmem hleaf hkmem (hcovers i m k hm hk)]
  · rintro rfl i m k hm hk
    obtain rfl := Option.some.inj (hm.symm.trans hk)
    have hlt : i < cube.hierarchies.length :=
      hrow.length_eq ▸ (List.getElem?_eq_some_iff.mp hm).1
    have hmem := (Cube.of_getElem?_of_forall₂ hrow (List.getElem?_eq_getElem hlt) hm).1
    exact ((hcube _ (List.getElem_mem hlt)).isRooted.isAncestorOrSelf_iff hmem hmem).mpr
      List.mem_cons_self

/-- What covers a key in one column and all the others. -/
theorem covers_set_iff {m k : Member} (hi : i < row.length) (hk : key[i]? = some k) :
    covers (row.set i m) key = true ↔ m.isAncestorOrSelf k = true ∧
      ∀ j, j ≠ i → ∀ n l, row[j]? = some n → key[j]? = some l → n.isAncestorOrSelf l = true := by
  rw [covers_iff]
  constructor
  · intro hcovers
    refine ⟨hcovers i m k (List.getElem?_set_self hi) hk, fun j hj n l hn hl => ?_⟩
    exact hcovers j n l ((List.getElem?_set_ne hj.symm).trans hn) hl
  · rintro ⟨hown, hothers⟩ j n l hn hl
    by_cases hj : j = i
    · subst hj
      obtain rfl : m = n := Option.some.inj ((List.getElem?_set_self hi).symm.trans hn)
      obtain rfl : k = l := Option.some.inj (hk.symm.trans hl)
      exact hown
    · exact hothers j hj n l ((List.getElem?_set_ne (Ne.symm hj)).symm.trans hn) hl

/-- A fact below a coordinate is below one of the coordinates that its member breaks down to. -/
theorem sum_children_eq {M : Type} [AddCommMonoid M] (w : M) (hcube : cube.IsBuilt)
    (hrow : cube.IsCoordinate row) (hi : cube.hierarchies[i]? = some h) (hp : row[i]? = some p)
    (hparts : h.children p ≠ []) (hkey : cube.IsLeaf key) :
    ((h.children p).map fun c => if covers (row.set i c) key then w else 0).sum =
      if covers row key then w else 0 := by
  have hrooted := (hcube h (List.mem_of_getElem? hi)).isRooted
  have hmem := Cube.of_getElem?_of_forall₂ hrow hi hp
  obtain ⟨k, hk, hkmem, hleaf⟩ := Cube.exists_getElem?_of_forall₂ hkey hi
  obtain ⟨hlt, hget⟩ := List.getElem?_eq_some_iff.mp hp
  have hset : row.set i p = row := by rw [← hget, List.set_getElem_self]
  have hnodup : (h.children p).Nodup := hrooted.members_nodup.filter _
  rw [sum_ite_eq w hnodup]
  · have hcovers : (h.children p).any (fun c => covers (row.set i c) key) = covers row key := by
      rw [Bool.eq_iff_iff, List.any_eq_true]
      simp only [covers_set_iff hlt hk]
      calc (∃ c ∈ h.children p, c.isAncestorOrSelf k = true ∧ _)
          ↔ (∃ c ∈ h.children p, c.isAncestorOrSelf k = true) ∧ _ := by
            constructor
            · rintro ⟨c, hc, habove, hothers⟩
              exact ⟨⟨c, hc, habove⟩, hothers⟩
            · rintro ⟨⟨c, hc, habove⟩, hothers⟩
              exact ⟨c, hc, habove, hothers⟩
        _ ↔ covers (row.set i p) key = true := by
          rw [covers_set_iff hlt hk, hrooted.above_iff_child_above hmem hparts hkmem hleaf]
        _ ↔ covers row key = true := by rw [hset]
    rw [hcovers]
  · intro c hc d hd hcovers hcovers'
    exact hrooted.eq_of_children_above hmem hc hd hkmem ((covers_set_iff hlt hk).mp hcovers).1
      ((covers_set_iff hlt hk).mp hcovers').1

/-! ### Tables of leaves -/

variable {α : Type} {t : FactTable α}

/-- A table that has been filled at coordinates of leaves, one after another. -/
inductive IsFilled (cube : Cube) : FactTable α → Prop where
  | empty (width : Nat) : IsFilled cube (.empty width)
  | set {t filled : FactTable α} (ht : IsFilled cube t) {coordinate : List Member}
    (hcoordinate : cube.IsLeaf coordinate) {value : CellValue α}
    (hset : t.set coordinate value = .ok filled) : IsFilled cube filled

/-- One fact at each of some leaves. -/
structure IsOfLeaves (cube : Cube) (t : FactTable α) : Prop where
  keys_leaf : ∀ cell ∈ t.cells, cube.IsLeaf cell.1
  keys_nodup : (t.cells.map (·.1)).Nodup
  not_empty : ∀ cell ∈ t.cells, cell.2.isEmpty = false

section Putting

variable {coordinate : List Member} {value : CellValue α}
  {cells : List (List Member × CellValue α)}

theorem map_putCell : (putCell coordinate value cells).map (·.1) =
    if cells.any (·.1 == coordinate) then cells.map (·.1)
    else cells.map (·.1) ++ [coordinate] := by
  induction cells with
  | nil => rfl
  | cons cell rest ih =>
    obtain ⟨own, old⟩ := cell
    rw [putCell, List.any_cons]
    by_cases heq : (own == coordinate) = true
    · rw [if_pos heq, heq, Bool.true_or, if_pos rfl]
      rfl
    · rw [if_neg heq, List.map_cons, ih]
      rw [Bool.not_eq_true] at heq
      rw [heq, Bool.false_or]
      split <;> rfl

theorem key_of_mem_putCell {cell : List Member × CellValue α}
    (hcell : cell ∈ putCell coordinate value cells) :
    cell.1 = coordinate ∨ ∃ own ∈ cells, own.1 = cell.1 := by
  have hkey : cell.1 ∈ (putCell coordinate value cells).map (·.1) := List.mem_map_of_mem hcell
  rw [map_putCell] at hkey
  split at hkey
  · exact .inr (List.mem_map.mp hkey)
  · rcases List.mem_append.mp hkey with hold | hnew
    · exact .inr (List.mem_map.mp hold)
    · exact .inl (List.mem_singleton.mp hnew)

theorem nodup_keys_putCell (hcells : (cells.map (·.1)).Nodup) :
    ((putCell coordinate value cells).map (·.1)).Nodup := by
  rw [map_putCell]
  split
  · exact hcells
  · next hnew =>
    rw [List.nodup_append]
    refine ⟨hcells, List.nodup_singleton _, fun key hkey other hother heq => ?_⟩
    obtain ⟨cell, hcell, rfl⟩ := List.mem_map.mp hkey
    rw [List.mem_singleton.mp hother] at heq
    exact hnew (List.any_eq_true.mpr ⟨cell, hcell, heq ▸ Cube.beq_coordinate_refl _⟩)

theorem value_of_mem_putCell {cell : List Member × CellValue α}
    (hcell : cell ∈ putCell coordinate value cells) :
    cell.2 = value ∨ ∃ own ∈ cells, own.2 = cell.2 := by
  induction cells with
  | nil =>
    rw [putCell] at hcell
    exact .inl (by rw [List.mem_singleton.mp hcell])
  | cons first rest ih =>
    obtain ⟨own, old⟩ := first
    rw [putCell] at hcell
    split at hcell
    · rcases List.mem_cons.mp hcell with rfl | hrest
      · exact .inl rfl
      · exact .inr ⟨cell, List.mem_cons_of_mem _ hrest, rfl⟩
    · rcases List.mem_cons.mp hcell with rfl | hrest
      · exact .inr ⟨_, List.mem_cons_self, rfl⟩
      · rcases ih hrest with hvalue | ⟨other, hother, heq⟩
        · exact .inl hvalue
        · exact .inr ⟨other, List.mem_cons_of_mem _ hother, heq⟩

theorem IsOfLeaves.erase (ht : t.IsOfLeaves cube) (coordinate : List Member) :
    (t.erase coordinate).IsOfLeaves cube := by
  have hsub : (t.erase coordinate).cells.Sublist t.cells := List.filter_sublist
  exact ⟨fun cell hcell => ht.keys_leaf cell (hsub.subset hcell),
    ht.keys_nodup.sublist (hsub.map _), fun cell hcell => ht.not_empty cell (hsub.subset hcell)⟩

/-- A fact replaces the one at its coordinate, so that coordinates stay distinct. -/
theorem IsOfLeaves.set (ht : t.IsOfLeaves cube) (hcoordinate : cube.IsLeaf coordinate)
    {filled : FactTable α} (hset : t.set coordinate value = .ok filled) :
    filled.IsOfLeaves cube := by
  rw [FactTable.set] at hset
  split at hset
  · cases hset
  · split at hset
    · obtain rfl := Except.ok.inj hset
      exact ht.erase coordinate
    · next hvalue =>
      obtain rfl := Except.ok.inj hset
      refine ⟨fun cell hcell => ?_, nodup_keys_putCell ht.keys_nodup, fun cell hcell => ?_⟩
      · rcases key_of_mem_putCell hcell with hnew | ⟨own, hown, heq⟩
        · rw [hnew]
          exact hcoordinate
        · rw [← heq]
          exact ht.keys_leaf own hown
      · rcases value_of_mem_putCell hcell with hnew | ⟨own, hown, heq⟩
        · rw [hnew]
          simpa using hvalue
        · rw [← heq]
          exact ht.not_empty own hown

end Putting

theorem IsFilled.isOfLeaves (ht : IsFilled cube t) : t.IsOfLeaves cube := by
  induction ht with
  | empty width => exact ⟨nofun, List.nodup_nil, nofun⟩
  | set _ hcoordinate hset ih => exact ih.set hcoordinate hset

/-- What is selected by a key that no other element has. -/
theorem filter_eq_singleton {β γ : Type} {l : List (β × γ)} {q : β × γ → Bool} {x : β × γ}
    (hnodup : (l.map (·.1)).Nodup) (hx : x ∈ l) (hq : ∀ y ∈ l, q y = true ↔ y.1 = x.1) :
    l.filter q = [x] := by
  obtain ⟨before, after, rfl⟩ := List.append_of_mem hx
  rw [List.map_append, List.map_cons, List.nodup_middle, List.nodup_cons,
    ← List.map_append] at hnodup
  have hothers : ∀ y ∈ before ++ after, ¬ q y = true := by
    intro y hy hqy
    have hmem : y ∈ before ++ x :: after := List.perm_middle.mem_iff.mpr (List.mem_cons_of_mem x hy)
    exact hnodup.1 (List.mem_map.mpr ⟨y, hy, (hq y hmem).mp hqy⟩)
  rw [List.forall_mem_append] at hothers
  rw [List.filter_append, List.filter_cons_of_pos ((hq x hx).mpr rfl),
    List.filter_eq_nil_iff.mpr hothers.1, List.filter_eq_nil_iff.mpr hothers.2, List.nil_append]

namespace IsOfLeaves

/-- A fact is found at a leaf, and is all there is below this leaf. -/
theorem covered_of_get? (ht : t.IsOfLeaves cube) (hcube : cube.IsBuilt)
    (hrow : cube.IsCoordinate row) {value : CellValue α} (hget : t.get? row = some value) :
    cube.IsLeaf row ∧ t.covered row = [value] := by
  rw [get?] at hget
  obtain ⟨cell, hfind, rfl⟩ := Option.map_eq_some_iff.mp hget
  have hcell := List.mem_of_find?_eq_some hfind
  have hleaf := ht.keys_leaf cell hcell
  have hfound := List.find?_some hfind
  have hkey : cell.1 = row := Cube.eq_of_beq_coordinate hcube hleaf.isCoordinate hrow hfound
  rw [hkey] at hleaf
  refine ⟨hleaf, ?_⟩
  rw [covered, filter_eq_singleton ht.keys_nodup hcell]
  · rfl
  · intro other hother
    rw [covers_leaf_iff hcube hleaf (ht.keys_leaf other hother), hkey, eq_comm]

variable [AddCommMonoid α] [One α]

theorem total_covered (ht : t.IsOfLeaves cube) (row : List Member) :
    total (t.covered row) = ofWeight ((t.covered row).map weight).sum := by
  have hfull : ∀ fact ∈ t.covered row, fact.isEmpty = false := by
    intro fact hfact
    obtain ⟨cell, hcell, rfl⟩ := List.mem_map.mp hfact
    exact ht.not_empty cell (List.mem_of_mem_filter hcell)
  rw [total_eq_combined hfull, combined_eq]

/-- A cell adds what the facts below it add. -/
theorem weight_valueAt (ht : t.IsOfLeaves cube) (hcube : cube.IsBuilt)
    (hrow : cube.IsCoordinate row) :
    (t.valueAt row).weight = ((t.covered row).map weight).sum := by
  rw [valueAt]
  cases hget : t.get? row with
  | none => rw [Option.getD_none, ht.total_covered, weight_ofWeight]
  | some value =>
    rw [(ht.covered_of_get? hcube hrow hget).2, Option.getD_some, List.map_singleton,
      List.sum_singleton]

/-- Above the leaves there are no facts to be found. -/
theorem valueAt_of_children (ht : t.IsOfLeaves cube) (hcube : cube.IsBuilt)
    (hrow : cube.IsCoordinate row) (hi : cube.hierarchies[i]? = some h) (hp : row[i]? = some p)
    (hparts : h.children p ≠ []) : t.valueAt row = total (t.covered row) := by
  rw [valueAt]
  cases hget : t.get? row with
  | none => rw [Option.getD_none]
  | some value =>
    have hleaf := (ht.covered_of_get? hcube hrow hget).1
    exact absurd (Cube.of_getElem?_of_forall₂ hleaf hi hp).2 hparts

end IsOfLeaves

variable [AddCommMonoid α] [One α]

/-- A cell with a member that has children is what the cells of the children come to together. -/
theorem valueAt_eq_combined (hcube : cube.IsBuilt) (ht : IsFilled cube t)
    (hrow : cube.IsCoordinate row) (hi : cube.hierarchies[i]? = some h) (hp : row[i]? = some p)
    (hparts : h.children p ≠ []) :
    t.valueAt row = combined ((h.children p).map fun c => t.valueAt (row.set i c)) := by
  have hleaves := ht.isOfLeaves
  have hweight : ∀ c ∈ h.children p, (t.valueAt (row.set i c)).weight =
      ((t.covered (row.set i c)).map weight).sum := by
    intro c hc
    have hmem : c ∈ h.members := List.mem_of_mem_filter hc
    exact hleaves.weight_valueAt hcube (hrow.set hi hmem)
  have hsum : ((t.covered row).map weight).sum =
      ((h.children p).map fun c => ((t.covered (row.set i c)).map weight).sum).sum := by
    simp only [covered, List.map_map]
    exact sum_filter_eq_sum_sum fun cell hcell =>
      sum_children_eq _ hcube hrow hi hp hparts (hleaves.keys_leaf cell hcell)
  calc t.valueAt row
      = total (t.covered row) := hleaves.valueAt_of_children hcube hrow hi hp hparts
    _ = ofWeight ((t.covered row).map weight).sum := hleaves.total_covered row
    _ = ofWeight ((h.children p).map fun c => (t.valueAt (row.set i c)).weight).sum := by
      rw [hsum, List.map_congr_left hweight]
    _ = combined ((h.children p).map fun c => t.valueAt (row.set i c)) := by
      rw [combined_eq, List.map_map]
      rfl

end FactTable

namespace Sales

def region : Hierarchy := regionBuilder.build.toOption.get rfl

def byRegion : Cube := ⟨"Sales", [time, region]⟩

def osloInFirstYear : List Member := [firstYear, region.members.get ⟨3, by decide⟩]

def bergenInSecondYear : List Member :=
  [time.members.get ⟨2, by decide⟩, region.members.get ⟨4, by decide⟩]

def regionFacts : FactTable ℤ :=
  ⟨2, [(osloInFirstYear, .number 3), (bergenInSecondYear, .boolean true)]⟩

theorem byRegion_isBuilt : byRegion.IsBuilt := by
  have htime : time.IsBuilt := ⟨⟨timeBuilder, (((HierarchyBuilder.Grown.withAll "Time").setLevels
    _).addMember (by simp) _).addMember (by simp) _, rfl⟩, by decide⟩
  have hregion : region.IsBuilt := ⟨⟨regionBuilder, regionBuilder_own.grown, rfl⟩, by decide⟩
  simpa [Cube.IsBuilt, byRegion] using And.intro htime hregion

theorem regionFacts_isFilled : FactTable.IsFilled byRegion regionFacts := by
  have hoslo : byRegion.IsLeaf osloInFirstYear :=
    .cons ⟨List.get_mem _ _, rfl⟩ (.cons ⟨List.get_mem _ _, rfl⟩ .nil)
  have hbergen : byRegion.IsLeaf bergenInSecondYear :=
    .cons ⟨List.get_mem _ _, rfl⟩ (.cons ⟨List.get_mem _ _, rfl⟩ .nil)
  have hfirst : (FactTable.empty 2).set osloInFirstYear (.number 3) =
    .ok (⟨2, [(osloInFirstYear, .number 3)]⟩ : FactTable ℤ) := rfl
  have hsecond : FactTable.set ⟨2, [(osloInFirstYear, .number 3)]⟩ bergenInSecondYear
    (.boolean true) = .ok regionFacts := rfl
  exact .set (.set (.empty 2) hoslo hfirst) hbergen hsecond

/-- A number in one town and a truth value in the other, of different years. -/
theorem norway_total : byRegion.IsCoordinate [time.defaultMember, norway] ∧
    region.children norway ≠ [] ∧
    regionFacts.valueAt [time.defaultMember, norway] = .number 4 := by
  have hrow : byRegion.IsCoordinate [time.defaultMember, norway] :=
    .cons time_isClosed.default_mem (.cons (List.mem_cons_of_mem _ List.mem_cons_self) .nil)
  have hparts : region.children norway ≠ [] := by decide
  refine ⟨hrow, hparts, ?_⟩
  rw [FactTable.valueAt_eq_combined byRegion_isBuilt regionFacts_isFilled hrow (i := 1) rfl rfl
    hparts]
  rfl

end Sales

end CubeCalc
