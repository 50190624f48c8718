import CubeCalc.Proofs.StableSort
import CubeCalc.Proofs.TupleList
import CubeCalc.Tuple.Source
/-!
# Tuple lists as plain lists of rows

A plain list has rows, an arity, a flag and a limit, and nothing else. Whatever a tuple list is
stored in, and whatever is done to it step after step, it answers as the plain list does and reads
like it.
-/

namespace CubeCalc

open Outcome

/-! ### Plain lists -/

structure PlainList where
  arity : Nat
  rows : List Tuple
  isMutable : Bool
  limit : RowLimit

namespace PlainList

/-- The slots that the members of the rows take up. -/
def slots (p : PlainList) : Nat := p.rows.length * p.arity

/-- The members of the rows can be counted in a word, as all that is held in memory can. -/
def IsCountable (p : PlainList) : Prop := p.rows.length * p.arity < wordBound

instance (p : PlainList) : Decidable p.IsCountable := inferInstanceAs (Decidable (_ < _))

def checkMutable (p : PlainList) : Outcome Unit :=
  if p.isMutable then .ok () else fail .immutableList

def checkRow (p : PlainList) (row : Tuple) : Outcome Unit :=
  if row.length = p.arity then .ok () else fail (.arityMismatch p.arity row.length)

/-- A position is one of some number of places. -/
def checkIndex (index places : Nat) : Outcome Unit :=
  if index < places then .ok () else fail (.indexOutOfBounds index places)

def checkRoom (p : PlainList) : Outcome Unit := p.limit.check (p.rows.length + 1)

def push (p : PlainList) (row : Tuple) : Outcome PlainList := do
  p.checkMutable
  p.checkRow row
  p.checkRoom
  return { p with rows := p.rows ++ [row] }

/-- One row after the other, up to the first that is refused. -/
def extend (p : PlainList) : List Tuple → PlainList × Outcome Unit
  | [] => (p, .ok ())
  | row :: rest =>
    match p.push row with
    | .ok longer => longer.extend rest
    | .error failure => (p, .error failure)

def set (p : PlainList) (index : Nat) (row : Tuple) : Outcome (Tuple × PlainList) := do
  p.checkMutable
  p.checkRow row
  checkIndex index p.rows.length
  return (p.rows.getD index [], { p with rows := p.rows.set index row })

def insert (p : PlainList) (index : Nat) (row : Tuple) : Outcome PlainList := do
  p.checkMutable
  p.checkRow row
  checkIndex index (p.rows.length + 1)
  p.checkRoom
  return { p with rows := p.rows.insertIdx index row }

def remove (p : PlainList) (index : Nat) : Outcome (Tuple × PlainList) := do
  p.checkMutable
  checkIndex index p.rows.length
  return (p.rows.getD index [], { p with rows := p.rows.eraseIdx index })

def clear (p : PlainList) : Outcome PlainList := do
  p.checkMutable
  return { p with rows := [] }

/-- The rows that are kept when each is seen once, in order, and what has been remembered then. -/
def keptRows {σ : Type} (keep : σ → Tuple → Bool × σ) : σ → List Tuple → List Tuple × σ
  | state, [] => ([], state)
  | state, row :: rest =>
    let seen := keep state row
    let kept := keptRows keep seen.2 rest
    (if seen.1 then row :: kept.1 else kept.1, kept.2)

def retain {σ : Type} (p : PlainList) (keep : σ → Tuple → Bool × σ) (state : σ) :
    Outcome (PlainList × σ) := do
  p.checkMutable
  return ({ p with rows := (keptRows keep state p.rows).1 }, (keptRows keep state p.rows).2)

/-- Insertion keeps rows that compare as equal in order. -/
def sortBy (p : PlainList) (compare : Tuple → Tuple → Ordering) : Outcome PlainList := do
  p.checkMutable
  return { p with rows := p.rows.insertionSort fun a b => (compare a b).isLE }

end PlainList

/-! ### Stable sorts -/

section Sorting

variable {compare : Tuple → Tuple → Ordering}

/-- A row is inserted behind the rows that come before it for certain. -/
theorem orderedInsert_append {row : Tuple} {before after : List Tuple}
    (hbefore : ∀ other ∈ before, (compare row other).isLE = false)
    (hafter : ∀ other ∈ after, (compare row other).isLE = true) :
    (before ++ after).orderedInsert (fun a b => (compare a b).isLE) row =
      before ++ row :: after := by
  induction before with
  | nil =>
    cases after with
    | nil => rfl
    | cons first rest => simp [hafter first List.mem_cons_self]
  | cons first rest ih =>
    rw [List.forall_mem_cons] at hbefore
    rw [List.cons_append, List.orderedInsert_cons, if_neg (by simp [hbefore.1]), ih hbefore.2]
    rfl

/-- There is one stable sort: merging and inserting put rows in the same order. -/
theorem mergeSort_isLE_eq (hcompare : Std.TransCmp compare) (rows : List Tuple) :
    rows.mergeSort (fun a b => (compare a b).isLE) =
      rows.insertionSort fun a b => (compare a b).isLE := by
  have htrans : ∀ a b c : Tuple, (compare a b).isLE → (compare b c).isLE → (compare a c).isLE :=
    fun _ _ _ => Std.TransCmp.isLE_trans
  have htotal : ∀ a b : Tuple, (compare a b).isLE || (compare b a).isLE := isLE_total
  induction rows with
  | nil => simp
  | cons row rest ih =>
    obtain ⟨before, after, hsorted, hrest, hbefore⟩ := List.mergeSort_cons htrans htotal row rest
    have hpairwise := List.pairwise_mergeSort htrans htotal (row :: rest)
    rw [hsorted, List.pairwise_append, List.pairwise_cons] at hpairwise
    rw [hsorted, List.insertionSort_cons, ← ih, hrest, orderedInsert_append]
    · exact fun other hother => by simpa using hbefore other hother
    · exact hpairwise.2.1.1

end Sorting

/-! ### Steps -/

/-- What can be done to a list. Cursors and sources yield rows of the arity that they declare. -/
inductive ListStep : Type 1 where
  | push (row : Tuple)
  | addCurrent {κ : Type} [Cursor κ] (cursor : κ) (row : Tuple)
    (hcurrent : Cursor.current cursor = .ok row) (hrow : row.length = Cursor.arity cursor)
  | extendFrom (source : TupleSource) (hsource : ∀ row ∈ source.tuples, row.length = source.arity)
  | set (index : Nat) (row : Tuple)
  | insert (index : Nat) (row : Tuple)
  | remove (index : Nat)
  | clear
  | retain {σ : Type} (keep : σ → Tuple → Bool × σ) (state : σ)
  | sortBy (compare : Tuple → Tuple → Ordering) (hcompare : Std.TransCmp compare)
  | fix
  | copy

namespace ListStep

inductive Answer : Type 1 where
  | done
  | row (old : Tuple)
  | state {σ : Type} (state : σ)

/-- A step that fails leaves the list as it was. -/
def settle {α : Type} (before : α) : Outcome (α × Answer) → α × Outcome Answer
  | .ok (after, answer) => (after, .ok answer)
  | .error failure => (before, .error failure)

def run (l : TupleList) : ListStep → TupleList × Outcome Answer
  | .push row => settle l ((l.push row).map (·, .done))
  | @addCurrent _ _ cursor _ _ _ => settle l ((l.addCurrent cursor).map (·, .done))
  | .extendFrom source _ => ((l.extendFrom source).1, (l.extendFrom source).2.map fun _ => .done)
  | .set index row => settle l ((l.set index row).map fun result => (result.2, .row result.1))
  | .insert index row => settle l ((l.insert index row).map (·, .done))
  | .remove index => settle l ((l.remove index).map fun result => (result.2, .row result.1))
  | .clear => settle l (l.clear.map (·, .done))
  | .retain keep state =>
    settle l ((l.retain (fun state row => .ok (keep state row)) state).map fun result =>
      (result.1, .state result.2))
  | .sortBy compare _ => settle l ((l.sortBy compare).map (·, .done))
  | .fix => (l.fixed, .ok .done)
  | .copy => (l.copy, .ok .done)

def runPlain (p : PlainList) : ListStep → PlainList × Outcome Answer
  | .push row | @addCurrent _ _ _ row _ _ => settle p ((p.push row).map (·, .done))
  | .extendFrom source _ =>
    ((p.extend source.tuples).1, (p.extend source.tuples).2.map fun _ => .done)
  | .set index row => settle p ((p.set index row).map fun result => (result.2, .row result.1))
  | .insert index row => settle p ((p.insert index row).map (·, .done))
  | .remove index => settle p ((p.remove index).map fun result => (result.2, .row result.1))
  | .clear => settle p (p.clear.map (·, .done))
  | .retain keep state =>
    settle p ((p.retain keep state).map fun result => (result.1, .state result.2))
  | .sortBy compare _ => settle p ((p.sortBy compare).map (·, .done))
  | .fix => ({ p with isMutable := false }, .ok .done)
  | .copy => ({ p with isMutable := true }, .ok .done)

end ListStep

end CubeCalc
