import CubeCalc.Tuple.Packed
/-!
# Storages

Three ways to hold rows: one member per row, packed rows of one arity, and rows as they came.
Callers have checked arities and positions before they change a storage.
-/

namespace CubeCalc

inductive Storage where
  | unary (members : Array Member)
  | packed (rows : Packed)
  | delegating (arity : Nat) (rows : Array Tuple)
  deriving Repr

namespace Storage

def name : Storage → String
  | .unary _ => "Unary"
  | .packed _ => "Array"
  | .delegating _ _ => "Delegating"

/-- An empty storage that suits an arity, with room for rows as far as the limit allows. -/
def withCapacity (arity rows : Nat) (limit : RowLimit) : Outcome Storage :=
  match arity with
  | 0 => .ok (.delegating 0 #[])
  | 1 => if limit.clamp rows < Packed.slotBound then .ok (.unary #[]) else violate .capacityOverflow
  | arity => .packed <$> Packed.withCapacity arity rows limit

def arity : Storage → Nat
  | .unary _ => 1
  | .packed rows => rows.arity
  | .delegating arity _ => arity

def length : Storage → Nat
  | .unary members => members.size
  | .packed rows => rows.size
  | .delegating _ rows => rows.size

def rows : Storage → List Tuple
  | .unary members => members.toList.map fun m => [m]
  | .packed rows => rows.rows
  | .delegating _ rows => rows.toList

def capacity? : Storage → Option Nat
  | .packed rows => some rows.capacity
  | _ => none

def member (s : Storage) (column index : Nat) : Outcome Member :=
  match s with
  | .unary members =>
    if column = 0 then
      match members[index]? with
      | some m => .ok m
      | none => violate .outOfRange
    else violate (.columnOutOfRange column 1)
  | .packed rows => rows.member column index
  | .delegating arity rows =>
    if column < arity then
      match rows[index]?.bind fun row => row[column]? with
      | some m => .ok m
      | none => violate .outOfRange
    else violate (.columnOutOfRange column arity)

/-- The row at a position, which callers have checked. -/
def row (s : Storage) (index : Nat) : Tuple :=
  match s with
  | .unary members => (members[index]?.map fun m => [m]).getD []
  | .packed rows => rows.row index
  | .delegating _ rows => rows[index]?.getD []

/-- The one member that a unary storage takes from a row. -/
def onlyMember (row : Tuple) : Outcome Member :=
  match row with
  | m :: _ => .ok m
  | [] => violate .outOfRange

def push (s : Storage) (limit : RowLimit) (row : Tuple) : Outcome Storage := do
  match s with
  | .unary members =>
    limit.check (members.size + 1)
    return .unary (members.push (← onlyMember row))
  | .packed rows => return .packed (← rows.push limit row)
  | .delegating arity rows =>
    limit.check (rows.size + 1)
    return .delegating arity (rows.push row)

def insert (s : Storage) (limit : RowLimit) (index : Nat) (row : Tuple) : Outcome Storage := do
  match s with
  | .unary members =>
    limit.check (members.size + 1)
    return .unary (members.toList.insertIdx index (← onlyMember row)).toArray
  | .packed rows => return .packed (← rows.insert limit index row)
  | .delegating arity rows =>
    limit.check (rows.size + 1)
    return .delegating arity (rows.toList.insertIdx index row).toArray

def set (s : Storage) (index : Nat) (row : Tuple) : Outcome Storage := do
  match s with
  | .unary members => return .unary (members.setIfInBounds index (← onlyMember row))
  | .packed rows => return .packed (rows.set index row)
  | .delegating arity rows => return .delegating arity (rows.setIfInBounds index row)

def remove (s : Storage) (index : Nat) : Storage :=
  match s with
  | .unary members => .unary (members.eraseIdxIfInBounds index)
  | .packed rows => .packed (rows.remove index)
  | .delegating arity rows => .delegating arity (rows.eraseIdxIfInBounds index)

/-- Puts rows in the place of all others. Reserved slots stay reserved. -/
def refill (s : Storage) (kept : List Tuple) : Storage :=
  match s with
  | .unary _ => .unary kept.flatten.toArray
  | .packed rows => .packed (rows.refill kept)
  | .delegating arity _ => .delegating arity kept.toArray

end Storage

end CubeCalc
