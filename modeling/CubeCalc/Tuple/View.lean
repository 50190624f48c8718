import CubeCalc.Tuple.List
/-!
# Views

A view reads another collection of tuples without copying it: a range of its rows, some of its
columns, one of its columns, or all of it while the positions that are read are noted.
-/

namespace CubeCalc

inductive View where
  | list (tuples : TupleList)
  | range (base : View) (start stop : Nat)
  | project (base : View) (columns : List Nat)
  | single (base : View) (column : Nat)
  | tracked (base : View)
  deriving Repr

namespace View

def arity : View → Nat
  | .list tuples => tuples.arity
  | .range base _ _ => base.arity
  | .project _ columns => columns.length
  | .single _ _ => 1
  | .tracked base => base.arity

def length : View → Nat
  | .list tuples => tuples.length
  | .range _ start stop => stop - start
  | .project base _ => base.length
  | .single base _ => base.length
  | .tracked base => base.length

def member : View → (column index : Nat) → Outcome Member
  | .list tuples, column, index => Indexed.member tuples column index
  | .range base start stop, column, index =>
    if index < stop - start then base.member column (start + index)
    else violate (.indexOutOfRange index (stop - start))
  | .project base columns, column, index =>
    match columns[column]? with
    | some own => base.member own index
    | none => violate .outOfRange
  | .single base own, column, index =>
    if column = 0 then base.member own index else violate (.columnOutOfRange column 1)
  | .tracked base, column, index => base.member column index

/-- The positions that are noted when a member is read, the outermost first. -/
def noted : View → (column index : Nat) → List Nat
  | .list _, _, _ => []
  | .range base start stop, column, index =>
    if index < stop - start then base.noted column (start + index) else []
  | .project base columns, column, index =>
    match columns[column]? with
    | some own => base.noted own index
    | none => []
  | .single base own, column, index => if column = 0 then base.noted own index else []
  | .tracked base, column, index => index :: base.noted column index

def notedRow (v : View) (index : Nat) : List Nat :=
  (List.range v.arity).flatMap fun column => v.noted column index

def notedWalk (v : View) : List Nat := (List.range v.length).flatMap v.notedRow

instance : Indexed View where
  arity := arity
  length := length
  member := member

def range? (base : View) (start stop : Nat) : Outcome View :=
  if stop > base.length then fail (.indexOutOfBounds stop base.length)
  else if start > stop then fail (.indexOutOfBounds start stop)
  else .ok (.range base start stop)

/-- A range within a range is a range of the collection below. -/
def narrow? (v : View) (start stop : Nat) : Outcome View := do
  let narrowed ← v.range? start stop
  match v with
  | .range base offset _ => return .range base (offset + start) (offset + stop)
  | _ => return narrowed

/-- Columns may be left out, reordered and repeated. -/
def project? (base : View) (columns : List Nat) : Outcome View :=
  match columns.find? fun column => base.arity ≤ column with
  | some column => fail (.indexOutOfBounds column base.arity)
  | none => .ok (.project base columns)

def single? (base : View) (column : Nat) : Outcome View :=
  if column < base.arity then .ok (.single base column)
  else violate (.columnOutOfRange column base.arity)

end View

end CubeCalc
