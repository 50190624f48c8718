import CubeCalc.Context
import CubeCalc.Tuple.Product
/-!
# Tuple sources

A source is a sequence of tuples that can be walked any number of times: a list, a product that is
not enumerated yet, or rows that are produced on demand.
-/

namespace CubeCalc

inductive TupleSource where
  | list (tuples : TupleList)
  | product (left right : TupleList)
  /-- A row that is not as long as the arity says is refused when a walk comes to it. -/
  | rows (arity : Nat) (tuples : List Tuple)
  deriving Repr

inductive SourceCursor where
  | positions (cursor : PositionCursor TupleList)
  | product (cursor : ProductCursor)
  | rows (cursor : RowCursor)

instance : Cursor SourceCursor where
  arity
    | .positions c => Cursor.arity c
    | .product c => Cursor.arity c
    | .rows c => Cursor.arity c
  forward
    | .positions c => let moved := Cursor.forward c; (moved.1, .positions moved.2)
    | .product c => let moved := Cursor.forward c; (moved.1, .product moved.2)
    | .rows c => let moved := Cursor.forward c; (moved.1, .rows moved.2)
  member
    | .positions c => Cursor.member c
    | .product c => Cursor.member c
    | .rows c => Cursor.member c
  current
    | .positions c => Cursor.current c
    | .product c => Cursor.current c
    | .rows c => Cursor.current c

namespace TupleSource

def arity : TupleSource → Nat
  | .list tuples => tuples.arity
  | .product left right => left.arity + right.arity
  | .rows arity _ => arity

/-- The rows of a source in the order of a walk. -/
def tuples : TupleSource → List Tuple
  | .list tuples => tuples.rows
  | .product left right => productRows left right
  | .rows _ tuples => tuples

def cursor : TupleSource → SourceCursor
  | .list tuples => .positions (.start tuples)
  | .product left right => .product (.start left right)
  | .rows arity tuples => .rows (.start arity tuples)

/-- What it takes to come to a row. Rows that are produced on demand are checked. -/
def reach (source : TupleSource) (row : Tuple) : Outcome Unit :=
  match source with
  | .rows arity _ => checkLength arity row
  | _ => .ok ()

/-- The number of rows, found out by walking over them and behind the last. -/
def count (source : TupleSource) : Outcome Nat :=
  Cursor.count (source.tuples.length + 1) source.cursor 0

/-- A row as a list takes it over. Rows that are produced on demand are taken over whole. -/
def wholeRow (source : TupleSource) (row : Tuple) : Outcome Tuple :=
  match source with
  | .rows _ _ => .ok row
  | source => readColumns source.arity row

def readRows (source : TupleSource) : Outcome (List Tuple) :=
  source.tuples.mapM fun row => do source.reach row; readColumns source.arity row

def readable (source : TupleSource) : Outcome TupleSource := source.readRows.map fun _ => source

def readColumn (source : TupleSource) (column : Nat) : Outcome (List Member) := do
  if source.arity ≤ column then violate (.columnOutOfRange column source.arity)
  source.tuples.mapM fun row => do
    source.reach row
    match row[column]? with
    | some m => .ok m
    | none => violate .outOfRange

/-- Comes to a row and appends it to a list. -/
def addTo (source : TupleSource) (l : TupleList) (row : Tuple) : Outcome TupleList := do
  source.reach row
  l.addRow source.arity (source.wholeRow row)

def materialize (source : TupleSource) (limit : RowLimit) : Outcome TupleList :=
  source.tuples.foldlM source.addTo (TupleList.new source.arity limit)

end TupleSource

/-- Appends rows until one is refused. What has been appended before stays. -/
def TupleList.addRows (l : TupleList) (source : TupleSource) :
    List Tuple → TupleList × Outcome Unit
  | [] => (l, .ok ())
  | row :: rest =>
    match source.addTo l row with
    | .ok longer => longer.addRows source rest
    | .error failure => (l, .error failure)

def TupleList.extendFrom (l : TupleList) (source : TupleSource) : TupleList × Outcome Unit :=
  l.addRows source source.tuples

/-! ### Walking in context -/

def Context.enter (ctx : Context) (arity : Nat) (row : Tuple) : Outcome Context := do
  let ctx ← ctx.moveAll (row.take arity)
  if row.length < arity then violate .outOfRange
  return ctx

/-- Moves a context to a cursor's tuple, column by column. A failure leaves it where it got to. -/
def Cursor.setContext {κ : Type} [Cursor κ] (cursor : κ) (ctx : Context) :
    Context × Outcome Unit :=
  go (List.range (Cursor.arity cursor)) ctx
where
  go : List Nat → Context → Context × Outcome Unit
    | [], ctx => (ctx, .ok ())
    | column :: rest, ctx =>
      match (Cursor.member cursor column).bind ctx.move with
      | .ok moved => go rest moved
      | .error failure => (ctx, .error failure)

/-- Visits the rows in order, each in the caller's context moved to the rows so far. -/
def TupleSource.walk {β : Type} (source : TupleSource) (ctx : Context) (start : β)
    (visit : β → Tuple → Context → Outcome β) : Outcome β := do
  let (result, _) ← source.tuples.foldlM (fun (result, here) row => do
    source.reach row
    let here ← here.enter source.arity row
    return (← visit result row here, here)) (start, ctx)
  return result

end CubeCalc
