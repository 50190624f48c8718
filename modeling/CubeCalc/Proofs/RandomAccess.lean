import CubeCalc.Proofs.View
/-!
# Random access

A member is read by column and row, through whatever views. A column or a row that is not there is
always refused. A range compares positions with its own length, the other views pass them on, and a
list has no slot behind its last row. Where rows are packed slots are counted, and a count that does
not fit into a word is refused before it could wrap around to the slot of another row.
-/

namespace CubeCalc

open Outcome

/-- The contract of an operation was broken by its caller. -/
def Outcome.Violates {α : Type} (o : Outcome α) : Prop := ∃ cause, o = violate cause

theorem Outcome.violates_violate {α : Type} (cause : Violation) :
    (violate cause : Outcome α).Violates := ⟨cause, rfl⟩

theorem Outcome.Violates.ne_ok {α : Type} {o : Outcome α} (h : o.Violates) (a : α) : o ≠ .ok a := by
  obtain ⟨cause, rfl⟩ := h
  intro hok
  cases hok

theorem Outcome.Matches.and_of_ok {α β : Type} {R : α → β → Prop} {P : α → Prop} {x : Outcome α}
    {y : Outcome β} (h : Matches R x y) (hP : ∀ a, x = .ok a → P a) :
    Matches (fun a b => R a b ∧ P a) x y := by
  cases h with
  | failed failure => exact .failed failure
  | ok h => exact .ok ⟨h, hP _ rfl⟩

/-! ### Lists -/

variable {rows : List Tuple} {column index : Nat}

theorem Storage.violates_of_arity_le {s : Storage} (hcolumn : s.arity ≤ column) (index : Nat) :
    (s.member column index).Violates := by
  cases s with
  | unary members =>
    have hne : column ≠ 0 := Nat.ne_of_gt hcolumn
    rw [Storage.member, if_neg hne]
    apply violates_violate
  | packed rows =>
    have hle : rows.arity ≤ column := hcolumn
    rw [Storage.member, Packed.member, if_neg (Nat.not_lt.mpr hle)]
    apply violates_violate
  | delegating arity rows =>
    have hle : arity ≤ column := hcolumn
    rw [Storage.member, if_neg (Nat.not_lt.mpr hle)]
    apply violates_violate

/-- A slot is at least as far on as the first one of its row. -/
theorem Packed.Stores.violates_of_length_le {packed : Packed} (hpacked : packed.Stores rows)
    (hindex : rows.length ≤ index) (column : Nat) : (packed.member column index).Violates := by
  unfold Packed.member
  by_cases hcolumn : column < packed.arity
  · rw [if_pos hcolumn]
    by_cases hslot : index * packed.arity + column < wordBound
    · have hsize : packed.data.size ≤ index * packed.arity + column := by
        calc packed.data.size = rows.length * packed.arity := hpacked.size_data
          _ ≤ index * packed.arity := Nat.mul_le_mul_right packed.arity hindex
          _ ≤ index * packed.arity + column := Nat.le_add_right _ column
      simp only [if_pos hslot, Array.getElem?_eq_none hsize]
      apply violates_violate
    · simp only [if_neg hslot]
      apply violates_violate
  · rw [if_neg hcolumn]
    apply violates_violate

theorem Storage.Stores.violates_of_length_le {s : Storage} (hs : s.Stores rows)
    (hindex : rows.length ≤ index) (column : Nat) : (s.member column index).Violates := by
  cases hs with
  | @unary members _ hmembers =>
    have hsize : members.size ≤ index := by
      rw [← hmembers, List.length_map, Array.length_toList] at hindex
      exact hindex
    rw [Storage.member]
    split
    · rw [Array.getElem?_eq_none hsize]
      apply violates_violate
    · apply violates_violate
  | packed hpacked => exact hpacked.violates_of_length_le hindex column
  | @delegating arity stored _ hstored hrows =>
    have hsize : stored.size ≤ index := by
      rw [← hstored, Array.length_toList] at hindex
      exact hindex
    rw [Storage.member]
    split
    · rw [Array.getElem?_eq_none hsize, Option.bind_none]
      apply violates_violate
    · apply violates_violate

/-! ### Views -/

namespace View

variable {v w : View} {t : Table} {l : TupleList} {p : PlainList}

/-- No member is read in a column or in a row that the view does not have. -/
def Refuses (v : View) : Prop :=
  ∀ column index, v.arity ≤ column ∨ v.length ≤ index → (v.member column index).Violates

theorem refuses_list (hl : l.Represents p) : (list l).Refuses := by
  rintro column index (hcolumn | hindex)
  · exact Storage.violates_of_arity_le hcolumn index
  · have hlength : l.length = p.rows.length := hl.length_eq
    exact hl.holds.violates_of_length_le (hlength ▸ hindex) column

/-- A range counts from where it starts, so that it has to compare positions itself. -/
theorem Refuses.range (hv : v.Refuses) (start stop : Nat) : (range v start stop).Refuses := by
  intro column index hout
  rw [View.member]
  by_cases hindex : index < stop - start
  · rw [if_pos hindex]
    have hcolumn : v.arity ≤ column := hout.resolve_right (Nat.not_le.mpr hindex)
    exact hv column (start + index) (.inl hcolumn)
  · rw [if_neg hindex]
    apply violates_violate

theorem Refuses.project (hv : v.Refuses) (columns : List Nat) : (project v columns).Refuses := by
  intro place index hout
  rw [View.member]
  cases hown : columns[place]? with
  | none => apply violates_violate
  | some own =>
    have hplace : place < columns.length := (List.getElem?_eq_some_iff.mp hown).1
    have hindex : v.length ≤ index := hout.resolve_left (Nat.not_le.mpr hplace)
    exact hv own index (.inr hindex)

theorem Refuses.single (hv : v.Refuses) (own : Nat) : (single v own).Refuses := by
  intro column index hout
  rw [View.member]
  by_cases hcolumn : column = 0
  · rw [if_pos hcolumn]
    have hinside : ¬1 ≤ column := by omega
    exact hv own index (.inr (hout.resolve_left hinside))
  · rw [if_neg hcolumn]
    apply violates_violate

theorem Refuses.of_narrowed {narrowed ranged : View} (h : ranged.Refuses)
    (harity : narrowed.arity = ranged.arity) (hlength : narrowed.length = ranged.length)
    (hmember : narrowed.member = ranged.member) : narrowed.Refuses := by
  intro column index hout
  rw [harity, hlength] at hout
  rw [hmember]
  exact h column index hout

theorem Refuses.range? (hv : v.Refuses) {start stop : Nat} (hrange : v.range? start stop = .ok w) :
    w.Refuses := by
  rw [View.range?] at hrange
  split at hrange
  · cases hrange
  · split at hrange
    · cases hrange
    · obtain rfl := Except.ok.inj hrange
      exact hv.range start stop

/-- Whatever is put on top of a view refuses what it does not have if the view does. -/
theorem Refuses.run (hv : v.Refuses) {step : ViewStep} (hstep : step.run v = .ok w) :
    w.Refuses := by
  cases step with
  | range start stop => exact hv.range? hstep
  | narrow start stop =>
    obtain ⟨ranged, hranged, harity, hlength, hmember⟩ :=
      (narrow_matches v start stop).exists_of_ok hstep
    exact (hv.range? hranged).of_narrowed harity hlength hmember
  | project columns =>
    rw [ViewStep.run, project?] at hstep
    split at hstep
    · cases hstep
    · obtain rfl := Except.ok.inj hstep
      exact hv.project columns
  | single column =>
    rw [ViewStep.run, single?] at hstep
    split at hstep
    · obtain rfl := Except.ok.inj hstep
      exact hv.single column
    · cases hstep
  | tracked =>
    obtain rfl := Except.ok.inj hstep
    exact hv

/-- Every position is read from the row and the column that it names, or refused. -/
structure AccessesAs (v : View) (t : Table) : Prop where
  member_eq : ∀ (index column : Nat) (hindex : index < t.rows.length)
    (hcolumn : column < t.rows[index].length),
    v.member column index = .ok t.rows[index][column]
  refused : ∀ column index, t.arity ≤ column ∨ t.rows.length ≤ index →
    (v.member column index).Violates
  member_iff : ∀ column index m,
    v.member column index = .ok m ↔ ∃ row, t.rows[index]? = some row ∧ row[column]? = some m

theorem Shows.accessesAs (h : v.Shows t) (hv : v.Refuses) : v.AccessesAs t := by
  have harity : v.arity = t.arity := h.arity_eq
  have hlength : v.length = t.rows.length := h.length_eq
  have hrefused : ∀ column index, t.arity ≤ column ∨ t.rows.length ≤ index →
      (v.member column index).Violates := by
    intro column index hout
    rw [← harity, ← hlength] at hout
    exact hv column index hout
  refine ⟨h.member_eq, hrefused, fun column index m => ⟨fun hm => ?_, ?_⟩⟩
  · have hcolumn : column < t.arity := by
      by_contra hle
      exact (hrefused column index (.inl (Nat.le_of_not_lt hle))).ne_ok m hm
    have hindex : index < t.rows.length := by
      by_contra hle
      exact (hrefused column index (.inr (Nat.le_of_not_lt hle))).ne_ok m hm
    have hrow : column < t.rows[index].length := by
      rwa [h.uniform _ (List.getElem_mem hindex)]
    have hread := h.member_eq index column hindex hrow
    refine ⟨t.rows[index], List.getElem?_eq_getElem hindex, ?_⟩
    rw [List.getElem?_eq_getElem hrow]
    exact congrArg some (Except.ok.inj (hread.symm.trans hm))
  · rintro ⟨row, hrow, hm⟩
    obtain ⟨hindex, rfl⟩ := List.getElem?_eq_some_iff.mp hrow
    obtain ⟨hcolumn, rfl⟩ := List.getElem?_eq_some_iff.mp hm
    exact h.member_eq index column hindex hcolumn

end View

namespace Sales

/-- The visits, each as a town and a year. -/
def swappedVisits : List ViewStep := [.tracked, .project [1, 0]]

end Sales

end CubeCalc
