import CubeCalc.Failure
/-!
# Cursors

A cursor walks a sequence of tuples forward and stands on one of them at a time. Until it has moved
onto a tuple there is nothing to read.
-/

namespace CubeCalc

class Indexed (ι : Type) where
  arity : ι → Nat
  length : ι → Nat
  member : ι → (column index : Nat) → Outcome Member

/-- The row at a position, read column by column. -/
def Indexed.row {ι : Type} [Indexed ι] (list : ι) (index : Nat) : Outcome Tuple :=
  (List.range (Indexed.arity list)).mapM fun column => Indexed.member list column index

/-- The row at a position, unless the position is past the end. -/
def Indexed.row? {ι : Type} [Indexed ι] (list : ι) (index : Nat) : Outcome (Option Tuple) :=
  if index < Indexed.length list then some <$> Indexed.row list index else .ok none

def Indexed.rows {ι : Type} [Indexed ι] (list : ι) : Outcome (List Tuple) :=
  (List.range (Indexed.length list)).mapM (Indexed.row list)

class Cursor (κ : Type) where
  arity : κ → Nat
  /-- Moves on and says whether there is a tuple. What fails has moved on as well. -/
  forward : κ → Outcome Bool × κ
  member : κ → (column : Nat) → Outcome Member
  current : κ → Outcome Tuple

namespace Cursor

variable {κ : Type} [Cursor κ]

/-- The tuple that the cursor stands on, read column by column. -/
def columns (cursor : κ) : Outcome Tuple :=
  (List.range (arity cursor)).mapM (member cursor)

def forwardBy (cursor : κ) : Nat → κ
  | 0 => cursor
  | n + 1 => forwardBy (forward cursor).2 n

/-- Counts how often the cursor can be moved forward. It is not moved more often than it may be. -/
def count (moves : Nat) (cursor : κ) (counted : Nat) : Outcome Nat :=
  match moves with
  | 0 => .ok counted
  | moves + 1 => do
    let (found, cursor) := forward cursor
    if ← found then count moves cursor (counted + 1) else return counted

end Cursor

/-- A tuple has to be as long as its sequence declares. -/
def checkLength (arity : Nat) (row : Tuple) : Outcome Unit :=
  if row.length = arity then .ok () else violate .tupleLength

/-! ### Cursors over positions -/

structure PositionCursor (ι : Type) where
  list : ι
  next : Nat
  position? : Option Nat

namespace PositionCursor

variable {ι : Type} [Indexed ι]

def start (list : ι) : PositionCursor ι := ⟨list, 0, none⟩

def forward (cursor : PositionCursor ι) : Outcome Bool × PositionCursor ι :=
  if cursor.next < Indexed.length cursor.list then
    (.ok true, { cursor with next := cursor.next + 1, position? := some cursor.next })
  else (.ok false, { cursor with position? := none })

def member (cursor : PositionCursor ι) (column : Nat) : Outcome Member :=
  match cursor.position? with
  | some position => Indexed.member cursor.list column position
  | none => violate .notPositioned

instance : Cursor (PositionCursor ι) where
  arity cursor := Indexed.arity cursor.list
  forward := forward
  member := member
  current cursor := (List.range (Indexed.arity cursor.list)).mapM (member cursor)

end PositionCursor

/-! ### Cursors over stored rows -/

/-- The rows still to come and the one that the cursor stands on. A row that is not as long as the
arity says is refused when the cursor comes to it. -/
structure RowCursor where
  arity : Nat
  remaining : List Tuple
  row? : Option Tuple

namespace RowCursor

def start (arity : Nat) (rows : List Tuple) : RowCursor := ⟨arity, rows, none⟩

def forward (cursor : RowCursor) : Outcome Bool × RowCursor :=
  match cursor.remaining with
  | row :: rest =>
    ((checkLength cursor.arity row).map fun _ => true,
      { cursor with remaining := rest, row? := some row })
  | [] => (.ok false, { cursor with row? := none })

def current (cursor : RowCursor) : Outcome Tuple :=
  match cursor.row? with
  | some row => .ok row
  | none => violate .notPositioned

def member (cursor : RowCursor) (column : Nat) : Outcome Member :=
  cursor.current.bind fun row =>
    match row[column]? with
    | some m => .ok m
    | none => violate .outOfRange

instance : Cursor RowCursor where
  arity := RowCursor.arity
  forward := forward
  member := member
  current := current

end RowCursor

/-! ### Looking ahead -/

/-- What is known about the tuple that comes next. -/
inductive Ahead where
  | unknown
  /-- The cursor below already stands on it. -/
  | present
  | exhausted
  deriving DecidableEq, Repr

/-- What is known when the cursor below has been moved. One that has failed may still go on. -/
def Ahead.after (found : Outcome Bool) (onTuple : Ahead) : Ahead :=
  match found with
  | .ok true => onTuple
  | .ok false => .exhausted
  | .error _ => .unknown

/-- A cursor that can say whether a tuple remains before it is asked for it. -/
structure Lookahead (κ : Type) where
  cursor : κ
  ahead : Ahead

namespace Lookahead

variable {κ : Type} [Cursor κ]

def start (cursor : κ) : Lookahead κ := ⟨cursor, .unknown⟩

def hasNext (it : Lookahead κ) : Outcome Bool × Lookahead κ :=
  match it.ahead with
  | .unknown =>
    let (found, cursor) := Cursor.forward it.cursor
    (found, ⟨cursor, .after found .present⟩)
  | .present => (.ok true, it)
  | .exhausted => (.ok false, it)

/-- The next tuple. The step is taken also when the tuple cannot be read. -/
def next (it : Lookahead κ) : Outcome (Option Tuple) × Lookahead κ :=
  let (found, it) := it.hasNext
  match found with
  | .ok true => (some <$> Cursor.current it.cursor, { it with ahead := .unknown })
  | .ok false => (.ok none, it)
  | .error failure => (.error failure, it)

/-- A tuple that has been looked at ahead is consumed first. -/
def forward (it : Lookahead κ) : Outcome Bool × Lookahead κ :=
  match it.ahead with
  | .unknown =>
    let (found, cursor) := Cursor.forward it.cursor
    (found, ⟨cursor, .after found .unknown⟩)
  | .present => (.ok true, { it with ahead := .unknown })
  | .exhausted => (.ok false, it)

/-- As a cursor it puts its tuple together from the columns. -/
instance : Cursor (Lookahead κ) where
  arity it := Cursor.arity it.cursor
  forward := forward
  member it := Cursor.member it.cursor
  current it := Cursor.columns it.cursor

/-- Tuples are not taken out of a sequence that is being walked. -/
def remove (_ : Lookahead κ) : Outcome Unit := fail (.unsupported "remove through a tuple iterator")

end Lookahead

/-! ### One column -/

/-- A cursor of which one column is read. -/
structure ColumnCursor (κ : Type) where
  cursor : κ
  column : Nat

namespace ColumnCursor

variable {κ : Type} [Cursor κ]

def start (cursor : κ) (column : Nat) : Outcome (ColumnCursor κ) :=
  if column < Cursor.arity cursor then .ok ⟨cursor, column⟩
  else violate (.columnOutOfRange column (Cursor.arity cursor))

def next (it : ColumnCursor κ) : Outcome (Option Member) × ColumnCursor κ :=
  let (found, cursor) := Cursor.forward it.cursor
  (do if ← found then some <$> Cursor.member cursor it.column else return none,
    { it with cursor })

/-- Where the cursor is when it has been asked for so many members. -/
def nextBy (it : ColumnCursor κ) : Nat → ColumnCursor κ
  | 0 => it
  | n + 1 => it.next.2.nextBy n

end ColumnCursor

end CubeCalc
