import CubeCalc.RowLimit
/-!
# Packed rows

Rows of one arity stand one behind the other in a flat array. Slots are reserved ahead, by half of
what is there, whole rows at a time, and never past the row limit.
-/

namespace CubeCalc

structure Packed where
  arity : Nat
  data : Array Member
  capacity : Nat
  deriving Repr

namespace Packed

/-- Member slots take a word each, and the address space is half a word's range of bytes. -/
def slotBound : Nat := Nat.pow 2 60

def withCapacity (arity rows : Nat) (limit : RowLimit) : Outcome Packed :=
  if arity = 0 then violate .packedWithoutColumns
  else
    let wanted := saturated (rows * arity)
    let capacity := (limit.ceiling? arity).elim wanted (min wanted)
    if capacity < slotBound then .ok ⟨arity, #[], capacity⟩ else violate .capacityOverflow

def size (p : Packed) : Nat := p.data.size / p.arity

def row (p : Packed) (index : Nat) : Tuple :=
  (p.data.extract (index * p.arity) (index * p.arity + p.arity)).toList

def rows (p : Packed) : List Tuple := (List.range p.size).map p.row

/-- The slot of a member is counted in a word. A position whose count does not fit is refused. -/
def member (p : Packed) (column index : Nat) : Outcome Member :=
  if column < p.arity then
    let slot := index * p.arity + column
    if slot < wordBound then
      match p.data[slot]? with
      | some m => .ok m
      | none => violate .outOfRange
    else violate .countOverflow
  else violate (.columnOutOfRange column p.arity)

/-- The slots to reserve once `needed` are no longer there. -/
def grownCapacity (p : Packed) (ceiling? : Option Nat) (needed : Nat) : Nat :=
  let wanted := max (saturated (p.capacity * 3) / 2 + 1) needed
  let partOfRow := wanted % p.arity
  let whole := if partOfRow = 0 then wanted else saturated (wanted + (p.arity - partOfRow))
  ceiling?.elim whole (min whole)

def reserve (p : Packed) (limit : RowLimit) (needed : Nat) : Outcome Packed := do
  let ceiling? := limit.ceiling? p.arity
  if ceiling?.any (· < needed) then limit.check ((needed + p.arity - 1) / p.arity)
  if needed ≤ p.capacity then return p
  return { p with capacity := p.grownCapacity ceiling? needed }

def push (p : Packed) (limit : RowLimit) (row : Tuple) : Outcome Packed := do
  let p ← p.reserve limit (p.data.size + p.arity)
  return { p with data := p.data ++ row }

/-- Moves the rows from a position on one row up. -/
def insert (p : Packed) (limit : RowLimit) (index : Nat) (row : Tuple) : Outcome Packed := do
  let p ← p.reserve limit (p.data.size + p.arity)
  let start := index * p.arity
  return { p with data := p.data.extract 0 start ++ row ++ p.data.extract start p.data.size }

def set (p : Packed) (index : Nat) (row : Tuple) : Packed :=
  let start := index * p.arity
  { p with data := p.data.extract 0 start ++ row ++ p.data.extract (start + p.arity) p.data.size }

/-- Moves the rows behind a position one row down. -/
def remove (p : Packed) (index : Nat) : Packed :=
  let start := index * p.arity
  { p with data := p.data.extract 0 start ++ p.data.extract (start + p.arity) p.data.size }

def refill (p : Packed) (rows : List Tuple) : Packed := { p with data := rows.flatten.toArray }

end Packed

end CubeCalc
