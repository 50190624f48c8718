import CubeCalc.Proofs.CrossJoin
/-!
# Trees of joins

Sets can be joined two by two in any shape. If every join keeps only some of the rows that it pairs,
a row of the whole tree is left if every join below keeps the part of the row that it has to do
with. Without that, all shapes over the same sets come to the same rows.
-/

namespace CubeCalc

/-- Joins of two, down to the sets that are joined. -/
inductive JoinTree (α : Type) where
  | leaf (set : α)
  | join (left right : JoinTree α)

namespace JoinTree

variable {α : Type}

/-- The sets that are joined, from left to right. -/
def leaves : JoinTree α → List α
  | leaf set => [set]
  | join left right => left.leaves ++ right.leaves

/-- The number of columns, one for each set. -/
def width (t : JoinTree α) : Nat := t.leaves.length

/-- The rows of a tree, where each join keeps some of the rows that it pairs. -/
def rows (keep : Tuple → Bool) (leafRows : α → List Tuple) : JoinTree α → List Tuple
  | leaf set => leafRows set
  | join left right => (pairRows (left.rows keep leafRows) (right.rows keep leafRows)).filter keep

/-- Each join of the tree keeps its part of a row. -/
def survives (keep : Tuple → Bool) : JoinTree α → Tuple → Bool
  | leaf _, _ => true
  | join left right, row =>
    keep row && (left.survives keep (row.take left.width) &&
      right.survives keep (row.drop left.width))

/-- The rows of a tree whose joins keep all that they pair. -/
def allRows (leafRows : α → List Tuple) (t : JoinTree α) : List Tuple :=
  t.rows (fun _ => true) leafRows

variable {keep : Tuple → Bool} {leafRows : α → List Tuple} {s t left right : JoinTree α}
  {row : Tuple}

theorem width_join (left right : JoinTree α) :
    (join left right).width = left.width + right.width := by
  simp [width, leaves]

theorem forall_leaves_join {p : α → Prop} :
    (∀ set ∈ (join left right).leaves, p set) ↔
      (∀ set ∈ left.leaves, p set) ∧ ∀ set ∈ right.leaves, p set :=
  List.forall_mem_append

theorem allRows_join (left right : JoinTree α) :
    (join left right).allRows leafRows =
      pairRows (left.allRows leafRows) (right.allRows leafRows) := by
  unfold allRows
  rw [rows, List.filter_true]

theorem length_of_mem_rows (hleaves : ∀ set ∈ t.leaves, ∀ row ∈ leafRows set, row.length = 1)
    (hrow : row ∈ t.rows keep leafRows) : row.length = t.width := by
  induction t generalizing row with
  | leaf set => exact hleaves set List.mem_cons_self row hrow
  | join left right ihl ihr =>
    obtain ⟨hleft, hright⟩ := forall_leaves_join.mp hleaves
    obtain ⟨first, hfirst, second, hsecond, rfl⟩ := mem_pairRows.mp (List.mem_of_mem_filter hrow)
    rw [List.length_append, width_join, ihl hleft hfirst, ihr hright hsecond]

/-! ### What is left -/

/-- To pair what is left of two lists is to leave the pairs whose rows are both left. -/
theorem filter_pairRows {p q : Tuple → Bool} {first second : List Tuple} {n : Nat}
    (hfirst : ∀ row ∈ first, row.length = n) :
    (pairRows first second).filter (fun row => p (row.take n) && q (row.drop n)) =
      pairRows (first.filter p) (second.filter q) := by
  induction first with
  | nil => rfl
  | cons row rest ih =>
    rw [List.forall_mem_cons] at hfirst
    have hrow : (second.map fun other => row ++ other).filter
        (fun row => p (row.take n) && q (row.drop n)) =
          if p row then (second.filter q).map fun other => row ++ other else [] := by
      rw [List.filter_map]
      have hparts : (fun row => p (row.take n) && q (row.drop n)) ∘ (fun other => row ++ other) =
          fun other => p row && q other := by
        funext other
        simp [← hfirst.1]
      rw [hparts]
      cases p row <;> simp
    have hrest := ih hfirst.2
    unfold pairRows at hrest ⊢
    rw [List.flatMap_cons, List.filter_append, hrow, hrest, List.filter_cons]
    cases p row <;> simp

/-- What is left of a tree's rows are the rows that survive. -/
theorem rows_eq_filter (hleaves : ∀ set ∈ t.leaves, ∀ row ∈ leafRows set, row.length = 1) :
    t.rows keep leafRows = (t.allRows leafRows).filter (t.survives keep) := by
  induction t with
  | leaf set =>
    have hall : (leaf set).survives keep = fun _ => true := rfl
    rw [hall, List.filter_true]
    rfl
  | join left right ihl ihr =>
    obtain ⟨hleft, hright⟩ := forall_leaves_join.mp hleaves
    have hsplit : (join left right).survives keep = fun row =>
        keep row && (left.survives keep (row.take left.width) &&
          right.survives keep (row.drop left.width)) := rfl
    have hwidth : ∀ row ∈ left.allRows leafRows, row.length = left.width := fun row hrow =>
      length_of_mem_rows hleft hrow
    rw [rows, ihl hleft, ihr hright, allRows_join, hsplit, ← List.filter_filter,
      filter_pairRows hwidth]

/-- A join leaves no rows but those that it keeps itself. -/
theorem filter_survives_sublist (keep : Tuple → Bool) (left right : JoinTree α)
    (rows : List Tuple) :
    (rows.filter ((join left right).survives keep)).Sublist (rows.filter keep) := by
  apply List.monotone_filter_right
  intro row hsurvives
  rw [survives, Bool.and_eq_true] at hsurvives
  exact hsurvives.1

/-- It leaves all that it keeps itself if the joins below never object. -/
theorem filter_survives_eq_iff {rows : List Tuple} :
    rows.filter ((join left right).survives keep) = rows.filter keep ↔
      ∀ row ∈ rows, keep row = true → (join left right).survives keep row = true := by
  constructor
  · intro hsame row hrow hkeep
    have hmem := List.mem_filter.mpr ⟨hrow, hkeep⟩
    rw [← hsame] at hmem
    exact (List.mem_filter.mp hmem).2
  · intro hall
    apply List.filter_congr
    intro row hrow
    by_cases hkeep : keep row = true
    · rw [hkeep]
      exact hall row hrow hkeep
    · rw [survives, Bool.eq_false_of_not_eq_true hkeep, Bool.false_and]

theorem survives_of_isInfix (hkeep : ∀ part, part <:+: row → keep part = true) :
    t.survives keep row = true := by
  induction t generalizing row with
  | leaf set => rfl
  | join left right ihl ihr =>
    rw [survives, hkeep row List.infix_rfl, Bool.true_and, Bool.and_eq_true]
    constructor
    · exact ihl fun part hpart => hkeep part (hpart.trans (List.take_prefix _ _).isInfix)
    · exact ihr fun part hpart => hkeep part (hpart.trans (List.drop_suffix _ _).isInfix)

/-! ### Shapes -/

theorem pairRows_assoc (first second third : List Tuple) :
    pairRows (pairRows first second) third = pairRows first (pairRows second third) := by
  simp only [pairRows, List.flatMap_assoc, List.flatMap_map, List.map_flatMap, List.map_map]
  apply List.flatMap_congr
  intro row _
  apply List.flatMap_congr
  intro other _
  apply List.map_congr_left
  intro last _
  exact List.append_assoc row other last

theorem nil_pairRows (rows : List Tuple) : pairRows [[]] rows = rows := by
  simp [pairRows]

theorem pairRows_nil (rows : List Tuple) : pairRows rows [[]] = rows := by
  simp [pairRows]

/-- All pairs of a tree's sets, whatever its shape. -/
theorem allRows_eq_foldr (leafRows : α → List Tuple) (t : JoinTree α) :
    t.allRows leafRows = t.leaves.foldr (fun set rows => pairRows (leafRows set) rows) [[]] := by
  have happend : ∀ (sets : List α) (rows : List Tuple),
      sets.foldr (fun set rows => pairRows (leafRows set) rows) rows =
        pairRows (sets.foldr (fun set rows => pairRows (leafRows set) rows) [[]]) rows := by
    intro sets rows
    induction sets with
    | nil => exact (nil_pairRows rows).symm
    | cons set rest ih =>
      rw [List.foldr_cons, List.foldr_cons, ih, pairRows_assoc]
  induction t with
  | leaf set => exact (pairRows_nil (leafRows set)).symm
  | join left right ihl ihr =>
    rw [allRows_join, ihl, ihr, leaves, List.foldr_append]
    exact (happend left.leaves _).symm

theorem allRows_eq_of_leaves_eq (hleaves : s.leaves = t.leaves) :
    s.allRows leafRows = t.allRows leafRows := by
  rw [allRows_eq_foldr, allRows_eq_foldr, hleaves]

end JoinTree

end CubeCalc
