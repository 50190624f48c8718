import CubeCalc.Tuple.Cursor
import CubeCalc.Tuple.Storage
/-!
# Tuple lists

A list of tuples over one of the storages. An immutable list refuses every change, and a mutable one
never holds more tuples than its limit allows.
-/

namespace CubeCalc

structure TupleList where
  storage : Storage
  isMutable : Bool
  limit : RowLimit
  deriving Repr

namespace TupleList

/-! ### Making lists -/

/-- A mutable empty list over a storage that suits the arity. -/
def withCapacity (arity rows : Nat) (limit : RowLimit) : Outcome TupleList := do
  return ⟨← Storage.withCapacity arity rows limit, true, limit⟩

def new (arity : Nat) (limit : RowLimit) : TupleList :=
  let storage : Storage :=
    match arity with
    | 0 => .delegating 0 #[]
    | 1 => .unary #[]
    | arity => .packed ⟨arity, #[], 0⟩
  ⟨storage, true, limit⟩

def ofMembers (members : List Member) (limit : RowLimit) : Outcome TupleList := do
  limit.check members.length
  return ⟨.unary members.toArray, true, limit⟩

/-- A list of rows as they came, if all are of the arity. -/
def ofRows (arity : Nat) (rows : List Tuple) (limit : RowLimit) : Outcome TupleList := do
  match rows.find? fun row => row.length ≠ arity with
  | some row => fail (.arityMismatch arity row.length)
  | none =>
    limit.check rows.length
    return ⟨.delegating arity rows.toArray, true, limit⟩

def emptyTuples (count : Nat) : TupleList :=
  ⟨.delegating 0 (Array.replicate count []), true, .unbounded⟩

def packed (arity rows : Nat) (limit : RowLimit) : Outcome TupleList := do
  return ⟨.packed (← Packed.withCapacity arity rows limit), true, limit⟩

def delegating (arity : Nat) (limit : RowLimit) : TupleList :=
  ⟨.delegating arity #[], true, limit⟩

/-- The list made read-only. There is no way back but to copy it. -/
def fixed (l : TupleList) : TupleList := { l with isMutable := false }

def empty (arity : Nat) : TupleList := (new arity .unbounded).fixed

def copy (l : TupleList) : TupleList := { l with isMutable := true }

def emptied (l : TupleList) (capacity : Nat) : Outcome TupleList :=
  withCapacity l.storage.arity capacity l.limit

/-! ### Reading -/

def arity (l : TupleList) : Nat := l.storage.arity

def length (l : TupleList) : Nat := l.storage.length

def isEmpty (l : TupleList) : Bool := l.length = 0

def rows (l : TupleList) : List Tuple := l.storage.rows

def row? (l : TupleList) (index : Nat) : Option Tuple :=
  if index < l.length then some (l.storage.row index) else none

instance : Indexed TupleList where
  arity := arity
  length := length
  member l column index := l.storage.member column index

def indexOf? (l : TupleList) (row : Tuple) : Option Nat :=
  if row.length = l.arity then l.rows.findIdx? (· == row) else none

def contains (l : TupleList) (row : Tuple) : Bool := (l.indexOf? row).isSome

/-- Lists are equal when they hold the same tuples in the same order, however they are stored. -/
instance : BEq TupleList := ⟨fun a b => a.arity == b.arity && a.rows == b.rows⟩

/-! ### Changing -/

def checkMutable (l : TupleList) : Outcome Unit :=
  if l.isMutable then .ok () else fail .immutableList

def checkArity (l : TupleList) (arity : Nat) : Outcome Unit :=
  if arity = l.arity then .ok () else fail (.arityMismatch l.arity arity)

def checkIndex (index length : Nat) : Outcome Unit :=
  if index < length then .ok () else fail (.indexOutOfBounds index length)

def push (l : TupleList) (row : Tuple) : Outcome TupleList := do
  l.checkMutable
  l.checkArity row.length
  return { l with storage := ← l.storage.push l.limit row }

/-- Appends a tuple of a sequence. The arity that the sequence declares is checked, and the tuple is
stored as it is. -/
def addRow (l : TupleList) (arity : Nat) (row : Outcome Tuple) : Outcome TupleList := do
  l.checkMutable
  l.checkArity arity
  return { l with storage := ← l.storage.push l.limit (← row) }

def addCurrent {κ : Type} [Cursor κ] (l : TupleList) (cursor : κ) : Outcome TupleList :=
  l.addRow (Cursor.arity cursor) (Cursor.current cursor)

def set (l : TupleList) (index : Nat) (row : Tuple) : Outcome (Tuple × TupleList) := do
  l.checkMutable
  l.checkArity row.length
  checkIndex index l.length
  return (l.storage.row index, { l with storage := ← l.storage.set index row })

/-- Puts a row before a position, or at the end. -/
def insert (l : TupleList) (index : Nat) (row : Tuple) : Outcome TupleList := do
  l.checkMutable
  l.checkArity row.length
  checkIndex index (l.length + 1)
  return { l with storage := ← l.storage.insert l.limit index row }

def remove (l : TupleList) (index : Nat) : Outcome (Tuple × TupleList) := do
  l.checkMutable
  checkIndex index l.length
  return (l.storage.row index, { l with storage := l.storage.remove index })

def clear (l : TupleList) : Outcome TupleList := do
  l.checkMutable
  return { l with storage := l.storage.refill [] }

/-- The rows that a predicate keeps. The predicate sees each row once, in order, and may remember
what it has seen. -/
def keepRows {σ : Type} (keep : σ → Tuple → Outcome (Bool × σ)) :
    σ → List Tuple → Outcome (List Tuple × σ)
  | state, [] => .ok ([], state)
  | state, row :: rest => do
    let (kept, state) ← keep state row
    let (rows, state) ← keepRows keep state rest
    return (if kept then row :: rows else rows, state)

def retain {σ : Type} (l : TupleList) (keep : σ → Tuple → Outcome (Bool × σ)) (state : σ) :
    Outcome (TupleList × σ) := do
  l.checkMutable
  let (rows, state) ← keepRows keep state l.rows
  return ({ l with storage := l.storage.refill rows }, state)

/-- Rows that compare as equal keep their order. -/
def sortBy (l : TupleList) (compare : Tuple → Tuple → Ordering) : Outcome TupleList := do
  l.checkMutable
  let sorted := l.rows.mergeSort fun a b => (compare a b).isLE
  return { l with storage := l.storage.refill sorted }

end TupleList

end CubeCalc
