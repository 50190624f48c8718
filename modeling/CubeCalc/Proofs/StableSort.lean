import Mathlib.Data.List.Sort
/-!
# Stable sorts

Elements that an order does not tell apart stay among each other as they were. Moves of elements
past each other are compared by what they do to each of these levels. A list that is in order is
given by its levels, so that there is one stable sort, by whatever moves it is reached.
-/

namespace CubeCalc

variable {α : Type} {order : α → α → Ordering} {a b : α} {l m n : List α}

/-- Elements that are in order as they stand are found in this order again. -/
theorem filter_mergeSort {le : α → α → Bool} {p : α → Bool}
    (htrans : ∀ a b c : α, le a b = true → le b c = true → le a c = true)
    (htotal : ∀ a b : α, (le a b || le b a) = true)
    (hp : (l.filter p).Pairwise fun a b => le a b = true) :
    (l.mergeSort le).filter p = l.filter p := by
  have hsublist := (List.sublist_mergeSort htrans htotal hp List.filter_sublist).filter p
  simp only [List.filter_filter, Bool.and_self] at hsublist
  refine (hsublist.eq_of_length ?_).symm
  exact ((List.mergeSort_perm l le).filter p).length_eq.symm

/-- The elements that are level with an element, as they stand. -/
def level (order : α → α → Ordering) (a : α) (l : List α) : List α :=
  l.filter fun b => order a b == .eq

theorem mem_level : b ∈ level order a l ↔ b ∈ l ∧ order a b = .eq := by
  rw [level, List.mem_filter, beq_iff_eq]

@[simp]
theorem level_append (a : α) (l m : List α) :
    level order a (l ++ m) = level order a l ++ level order a m := List.filter_append l m

theorem level_cons_of_eq (h : order a b = .eq) : level order a (b :: l) = b :: level order a l :=
  List.filter_cons_of_pos (by rw [h]; rfl)

theorem level_cons_of_ne (h : order a b ≠ .eq) : level order a (b :: l) = level order a l :=
  List.filter_cons_of_neg (by simpa using h)

theorem level_eq_nil_iff : level order a l = [] ↔ ∀ b ∈ l, order a b ≠ .eq := by
  simp [level, List.filter_eq_nil_iff]

/-- Elements have been moved past each other only where the order tells them apart. -/
def Levels (order : α → α → Ordering) (l m : List α) : Prop :=
  ∀ a, level order a m = level order a l

namespace Levels

theorem refl (l : List α) : Levels order l l := fun _ => rfl

theorem symm (h : Levels order l m) : Levels order m l := fun a => (h a).symm

theorem trans (h : Levels order l m) (h' : Levels order m n) : Levels order l n :=
  fun a => (h' a).trans (h a)

theorem append {l' m' : List α} (h : Levels order l m) (h' : Levels order l' m') :
    Levels order (l ++ l') (m ++ m') := by
  intro a
  rw [level_append, level_append, h a, h' a]

theorem cons (h : Levels order l m) (a : α) : Levels order (a :: l) (a :: m) :=
  (refl [a]).append h

variable [Std.TransCmp order]

theorem mem_iff (h : Levels order l m) : a ∈ m ↔ a ∈ l := by
  have hself : order a a = .eq := Std.ReflCmp.compare_self
  have hmem : ∀ k : List α, a ∈ level order a k ↔ a ∈ k := fun k => by
    rw [mem_level, and_iff_left hself]
  rw [← hmem, h a, hmem]

/-- An element can be moved to the front if it is level with none that it passes. -/
theorem move (h : ∀ b ∈ l, order a b ≠ .eq) (m : List α) :
    Levels order (l ++ a :: m) (a :: (l ++ m)) := by
  intro c
  by_cases hc : order c a = .eq
  · have hpassed : level order c l = [] := by
      rw [level_eq_nil_iff]
      intro b hb hcb
      exact h b hb (Std.TransCmp.eq_trans (Std.OrientedCmp.eq_symm hc) hcb)
    rw [level_cons_of_eq hc, level_append, level_append, level_cons_of_eq hc, hpassed]
    rfl
  · rw [level_cons_of_ne hc, level_append, level_append, level_cons_of_ne hc]

/-- It can be moved to the end in the same way. -/
theorem pass (h : ∀ b ∈ m, order a b ≠ .eq) (l : List α) :
    Levels order (l ++ a :: m) (l ++ m ++ [a]) := by
  have hmove : Levels order (m ++ [a]) (a :: (m ++ [])) := move h []
  rw [List.append_nil] at hmove
  rw [List.append_assoc]
  exact (refl l).append hmove.symm

theorem reverse (h : l.Pairwise fun a b => order a b ≠ .eq) : Levels order l l.reverse := by
  induction l with
  | nil => exact refl []
  | cons a l ih =>
    rw [List.pairwise_cons] at h
    rw [List.reverse_cons]
    exact (pass h.1 []).trans ((ih h.2).append (refl [a]))

/-- Elements can be set apart by what does not tell level ones apart. -/
theorem filter {p : α → Bool} (hp : ∀ a ∈ l, ∀ b ∈ l, order a b = .eq → p a = p b) :
    Levels order l (l.filter p ++ l.filter fun a => !p a) := by
  induction l with
  | nil => exact refl []
  | cons a l ih =>
    have hrest := ih fun b hb c hc => hp b (List.mem_cons_of_mem a hb) c (List.mem_cons_of_mem a hc)
    cases ha : p a with
    | true =>
      rw [List.filter_cons_of_pos ha, List.filter_cons_of_neg (by simp [ha])]
      exact hrest.cons a
    | false =>
      have hmove : ∀ b ∈ l.filter p, order a b ≠ .eq := by
        intro b hb hab
        rw [List.mem_filter] at hb
        have heq := hp a List.mem_cons_self b (List.mem_cons_of_mem a hb.1) hab
        rw [ha, hb.2] at heq
        cases heq
      rw [List.filter_cons_of_neg (by simp [ha]), List.filter_cons_of_pos (by simp [ha])]
      exact (hrest.cons a).trans (move hmove _).symm

end Levels

/-- Each element is followed by none that is less. -/
def Ascends (order : α → α → Ordering) (l : List α) : Prop :=
  l.Pairwise fun a b => (order a b).isLE

/-- The elements in order, level ones as they were. -/
def arranged (order : α → α → Ordering) (l : List α) : List α :=
  l.mergeSort fun a b => (order a b).isLE

@[simp]
theorem mem_arranged : a ∈ arranged order l ↔ a ∈ l := List.mem_mergeSort

/-- A sort compares only elements that there are. -/
theorem mergeSort_eq_arranged {le : α → α → Bool}
    (h : ∀ a ∈ l, ∀ b ∈ l, le a b = (order a b).isLE) : l.mergeSort le = arranged order l := by
  have hmap := List.map_mergeSort (f := id) (s := fun a b => (order a b).isLE) h
  rwa [List.map_id, List.map_id] at hmap

theorem Ascends.concat (hl : Ascends order l) (h : ∀ b ∈ l, (order b a).isLE) :
    Ascends order (l ++ [a]) := by
  refine List.pairwise_append.mpr ⟨hl, List.pairwise_singleton _ a, fun b hb c hc => ?_⟩
  rw [List.mem_singleton.mp hc]
  exact h b hb

variable [Std.TransCmp order]

theorem isLE_iff_ne_lt : (order a b).isLE ↔ order b a ≠ .lt := by
  have hswap : order b a = (order a b).swap := Std.OrientedCmp.eq_swap
  rw [hswap]
  cases order a b <;> decide

theorem beq_lt_eq_false_iff : (order a b == .lt) = false ↔ (order b a).isLE := by
  rw [beq_eq_false_iff_ne, isLE_iff_ne_lt]

theorem ne_eq_of_lt (h : order a b = .lt) : order b a ≠ .eq := by
  intro heq
  rw [Std.OrientedCmp.eq_symm heq] at h
  cases h

theorem isLE_self (a : α) : (order a a).isLE := by
  have hself : order a a = .eq := Std.ReflCmp.compare_self
  rw [hself]
  rfl

theorem eq_of_isLE_of_isLE (hab : (order a b).isLE) (hba : (order b a).isLE) :
    order a b = .eq := by
  rw [isLE_iff_ne_lt] at hba
  cases h : order a b with
  | eq => rfl
  | lt => exact absurd h hba
  | gt =>
    rw [h] at hab
    cases hab

theorem isLE_total (a b : α) : ((order a b).isLE || (order b a).isLE) = true := by
  rw [Bool.or_eq_true, isLE_iff_ne_lt, isLE_iff_ne_lt]
  by_contra hboth
  rw [not_or, not_not, not_not] at hboth
  have hself : order a a = .lt := Std.TransCmp.lt_trans hboth.2 hboth.1
  exact isLE_iff_ne_lt.mp (isLE_self a) hself

theorem Ascends.isLE_of_mem (h : Ascends order (a :: l)) (hb : b ∈ a :: l) : (order a b).isLE := by
  obtain rfl | hb := List.mem_cons.mp hb
  · exact isLE_self b
  · exact List.rel_of_pairwise_cons h hb

theorem Ascends.isLE_of_mem_concat (h : Ascends order (l ++ [a])) (hb : b ∈ l ++ [a]) :
    (order b a).isLE := by
  rcases List.mem_append.mp hb with hb | hb
  · exact (List.pairwise_append.mp h).2.2 b hb a (List.mem_singleton_self a)
  · rw [List.mem_singleton.mp hb]
    exact isLE_self a

/-- An ascending list is given by its levels. -/
theorem Ascends.eq_of_levels (hl : Ascends order l) (hm : Ascends order m)
    (hlevels : Levels order l m) : l = m := by
  induction l generalizing m with
  | nil =>
    refine (List.eq_nil_iff_forall_not_mem.mpr fun a ha => ?_).symm
    exact List.not_mem_nil (hlevels.mem_iff.mp ha)
  | cons a l ih =>
    cases m with
    | nil => exact absurd (hlevels.mem_iff.mpr List.mem_cons_self) List.not_mem_nil
    | cons b m =>
      have hfirst : order a b = .eq := by
        have hb : b ∈ a :: l := hlevels.mem_iff.mp List.mem_cons_self
        have ha : a ∈ b :: m := hlevels.mem_iff.mpr List.mem_cons_self
        exact eq_of_isLE_of_isLE (hl.isLE_of_mem hb) (hm.isLE_of_mem ha)
      have hself : order a a = .eq := Std.ReflCmp.compare_self
      have hlevel := hlevels a
      rw [level_cons_of_eq hfirst, level_cons_of_eq hself, List.cons.injEq] at hlevel
      obtain ⟨rfl, -⟩ := hlevel
      have hrest : Levels order l m := by
        intro c
        have hlevel := hlevels c
        by_cases hc : order c b = .eq
        · rw [level_cons_of_eq hc, level_cons_of_eq hc] at hlevel
          exact (List.cons.inj hlevel).2
        · rwa [level_cons_of_ne hc, level_cons_of_ne hc] at hlevel
      rw [ih hl.of_cons hm.of_cons hrest]

/-! ### The stable sort -/

theorem ascends_arranged (l : List α) : Ascends order (arranged order l) :=
  List.pairwise_mergeSort (fun _ _ _ => Std.TransCmp.isLE_trans) isLE_total l

theorem levels_arranged (l : List α) : Levels order l (arranged order l) := by
  refine fun a => filter_mergeSort (fun _ _ _ => Std.TransCmp.isLE_trans) isLE_total ?_
  refine List.pairwise_of_forall_mem_list fun b hb c hc => ?_
  have hba : order b a = .eq := Std.OrientedCmp.eq_symm (mem_level.mp hb).2
  rw [Std.TransCmp.eq_trans hba (mem_level.mp hc).2]
  rfl

/-- Whatever has come into order without moving level elements past each other is the stable
sort. -/
theorem Ascends.eq_arranged (hm : Ascends order m) (h : Levels order l m) : m = arranged order l :=
  hm.eq_of_levels (ascends_arranged l) (h.symm.trans (levels_arranged l))

theorem arranged_congr (h : Levels order l m) : arranged order l = arranged order m :=
  (ascends_arranged l).eq_arranged (h.symm.trans (levels_arranged l))

theorem Ascends.arranged_eq (hl : Ascends order l) : arranged order l = l :=
  (hl.eq_arranged (.refl l)).symm

theorem arranged_eq_cons (hm : Levels order m (a :: l)) (h : ∀ b ∈ l, (order a b).isLE) :
    arranged order m = a :: arranged order l := by
  have hascends : Ascends order (a :: arranged order l) :=
    List.pairwise_cons.mpr ⟨fun b hb => h b (mem_arranged.mp hb), ascends_arranged l⟩
  exact (hascends.eq_arranged (hm.trans ((levels_arranged l).cons a))).symm

theorem arranged_eq_concat (hm : Levels order m (l ++ [a])) (h : ∀ b ∈ l, (order b a).isLE) :
    arranged order m = arranged order l ++ [a] := by
  have hascends : Ascends order (arranged order l ++ [a]) :=
    (ascends_arranged l).concat fun b hb => h b (mem_arranged.mp hb)
  exact (hascends.eq_arranged (hm.trans ((levels_arranged l).append (.refl [a])))).symm

/-- Sorting parts first makes no difference. -/
theorem arranged_append_arranged (l m : List α) :
    arranged order (arranged order l ++ arranged order m) = arranged order (l ++ m) :=
  (arranged_congr ((levels_arranged l).append (levels_arranged m))).symm

theorem arranged_arranged_append (l m : List α) :
    arranged order (arranged order l ++ m) = arranged order (l ++ m) :=
  (arranged_congr ((levels_arranged l).append (.refl m))).symm

/-- Where one part comes before the other, both can be sorted aside. -/
theorem arranged_append_of_isLE (h : ∀ a ∈ l, ∀ b ∈ m, (order a b).isLE) :
    arranged order l ++ arranged order m = arranged order (l ++ m) := by
  rw [← arranged_append_arranged l m]
  refine (Ascends.arranged_eq (List.pairwise_append.mpr ?_)).symm
  refine ⟨ascends_arranged l, ascends_arranged m, fun a ha b hb => ?_⟩
  exact h a (mem_arranged.mp ha) b (mem_arranged.mp hb)

/-- What comes before all the rest can be sorted apart from it. -/
theorem arranged_filter_append {p : α → Bool}
    (hp : ∀ a ∈ l, ∀ b ∈ l, p a = true → p b = false → order a b = .lt) :
    arranged order (l.filter p) ++ arranged order (l.filter fun a => !p a) = arranged order l := by
  have hlevel : ∀ a ∈ l, ∀ b ∈ l, order a b = .eq → p a = p b := by
    intro a ha b hb hab
    cases hpa : p a <;> cases hpb : p b
    · rfl
    · exact absurd hab (ne_eq_of_lt (hp b hb a ha hpb hpa))
    · rw [hp a ha b hb hpa hpb] at hab
      cases hab
    · rfl
  rw [arranged_congr (Levels.filter hlevel)]
  refine arranged_append_of_isLE fun a ha b hb => ?_
  rw [List.mem_filter] at ha hb
  rw [Bool.not_eq_true'] at hb
  exact Ordering.isLE_of_eq_lt (hp a ha.1 b hb.1 ha.2 hb.2)

end CubeCalc
