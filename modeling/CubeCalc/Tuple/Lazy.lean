import CubeCalc.Tuple.Source
import CubeCalc.Tuple.View
/-!
# Lazy lists

A read-only list over a source that is packed when it is first read by position. From then on the
source is left alone.
-/

namespace CubeCalc

structure LazyList where
  source : TupleSource
  list? : Option TupleList
  limit : RowLimit
  walks : Nat

namespace LazyList

def new (source : TupleSource) (limit : RowLimit) : LazyList := ⟨source, none, limit, 0⟩

def isMaterialized (l : LazyList) : Bool := l.list?.isSome

def arity (l : LazyList) : Nat := l.source.arity

/-- The packed list, which is packed now if it is not there. A source that does not fit is walked
again the next time. -/
def list (l : LazyList) : Outcome TupleList × LazyList :=
  match l.list? with
  | some tuples => (.ok tuples, l)
  | none =>
    let walked := { l with walks := l.walks + 1 }
    match l.source.materialize l.limit with
    | .ok tuples => (.ok tuples.fixed, { walked with list? := some tuples.fixed })
    | .error failure => (.error failure, walked)

def read {α : Type} (l : LazyList) (reading : TupleList → Outcome α) : Outcome α × LazyList :=
  let (tuples, l) := l.list
  (tuples.bind reading, l)

def length (l : LazyList) : Outcome Nat × LazyList := l.read fun t => .ok t.length

def isEmpty (l : LazyList) : Outcome Bool × LazyList := l.read fun t => .ok t.isEmpty

def member (l : LazyList) (column index : Nat) : Outcome Member × LazyList :=
  l.read fun t =>
    if t.length ≤ index then fail (.indexOutOfBounds index t.length)
    else Indexed.member t column index

def row? (l : LazyList) (index : Nat) : Outcome (Option Tuple) × LazyList :=
  l.read fun t => Indexed.row? t index

def range (l : LazyList) (start stop : Nat) : Outcome View × LazyList :=
  l.read fun t => (View.list t).range? start stop

def column (l : LazyList) (column : Nat) : Outcome View × LazyList :=
  l.read fun t => (View.list t).single? column

/-- What a walk goes over: the packed list once it is there, and the source before. -/
def walked (l : LazyList) : TupleSource × LazyList :=
  match l.list? with
  | some tuples => (.list tuples, l)
  | none => (l.source, { l with walks := l.walks + 1 })

def rows (l : LazyList) : Outcome (List Tuple) × LazyList :=
  let (source, l) := l.walked
  (source.readRows, l)

/-- The members of one column, walked. A column out of range is refused before the walk. -/
def walkColumn (l : LazyList) (column : Nat) : Outcome (List Member) × LazyList :=
  if column < l.arity then
    let (source, l) := l.walked
    (source.readColumn column, l)
  else (violate (.columnOutOfRange column l.arity), l)

/-! ### Changes are refused -/

def push (_ : LazyList) (_ : Tuple) : Outcome Unit := fail .immutableList

def set (_ : LazyList) (_ : Nat) (_ : Tuple) : Outcome Tuple := fail .immutableList

def insert (_ : LazyList) (_ : Nat) (_ : Tuple) : Outcome Unit := fail .immutableList

def remove (_ : LazyList) (_ : Nat) : Outcome Tuple := fail .immutableList

def clear (_ : LazyList) : Outcome Unit := fail .immutableList

def dump (l : LazyList) : String :=
  Text.dumpFields "LazyTupleList"
    [("arity", toString l.arity), ("materialized", if l.isMaterialized then "true" else "false"),
      ("limit", l.limit.dump)]

end LazyList

end CubeCalc
