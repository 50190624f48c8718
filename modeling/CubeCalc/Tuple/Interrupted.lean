import CubeCalc.Tuple.Comparison
/-!
# Interrupted sorts

What a sort in place leaves behind where a comparison fails. Every row is still there, but the rows
are part way to their order, so that the moves up to that point matter: few rows sink one by one,
and more are put together from sorted runs.
-/

namespace CubeCalc

/-- A result, or the rows as a failing comparison leaves them. -/
abbrev Attempt (α : Type) := Except (List Tuple) α

namespace Attempt

/-- Compares rows without moving any. -/
def onlyRead {α : Type} (rows : List Tuple) (outcome : Outcome α) : Attempt α :=
  outcome.mapError fun _ => rows

/-- An attempt at some of the rows, seen with those before and after them. -/
def between {α : Type} (before after : List Tuple) (attempt : Attempt α) : Attempt α :=
  attempt.mapError (before ++ · ++ after)

/-- An attempt at the rows that follow a row. -/
def cons (row : Tuple) (attempt : Attempt (List Tuple)) : Attempt (List Tuple) :=
  (between [row] [] attempt).map (row :: ·)

/-- An attempt at rows in descending order, with the rows turned round. -/
def reverse (attempt : Attempt (List Tuple)) : Attempt (List Tuple) :=
  (attempt.map List.reverse).mapError List.reverse

end Attempt

namespace RowComparison

open Attempt

/-! ### Sinking -/

/-- Moves a row down past all rows that it is less than, which are in descending order. If a
comparison fails the row stays where it has got to. -/
def sink (compare : RowComparison) (row : Tuple) : List Tuple → Attempt (List Tuple)
  | [] => .ok [row]
  | last :: rest =>
    match compare row last with
    | .ok .lt => cons last (sink compare row rest)
    | .ok _ => .ok (row :: last :: rest)
    | .error _ => .error (row :: last :: rest)

/-- Sinks row after row into the sorted ones, which are in descending order. -/
def sinkAll (compare : RowComparison) (sorted : List Tuple) : List Tuple → Attempt (List Tuple)
  | [] => .ok sorted.reverse
  | row :: rest => do
    let ascending ← between [] rest (reverse (compare.sink row sorted))
    sinkAll compare ascending.reverse rest

/-! ### Merging -/

def mergeUp (compare : RowComparison) : List Tuple → List Tuple → Attempt (List Tuple)
  | [], right => .ok right
  | left, [] => .ok left
  | a :: left, b :: right =>
    match compare b a with
    | .ok .lt => cons b (mergeUp compare (a :: left) right)
    | .ok _ => cons a (mergeUp compare left (b :: right))
    | .error _ => .error (a :: left ++ b :: right)
termination_by left right => left.length + right.length

/-- Merges two sorted runs from their ends. The runs and the result are in descending order. -/
def mergeDown (compare : RowComparison) : List Tuple → List Tuple → Attempt (List Tuple)
  | [], right => .ok right
  | left, [] => .ok left
  | a :: left, b :: right =>
    match compare b a with
    | .ok .lt => cons a (mergeDown compare left (b :: right))
    | .ok _ => cons b (mergeDown compare (a :: left) right)
    | .error _ => .error (b :: right ++ a :: left)
termination_by left right => left.length + right.length

/-- Merges two sorted runs, starting on the side of the shorter one. -/
def merge (compare : RowComparison) (left right : List Tuple) : Attempt (List Tuple) :=
  if left.length ≤ right.length then compare.mergeUp left right
  else reverse (compare.mergeDown left.reverse right.reverse)

def blockLength : Nat := 32

/-- Sorts both halves aside, puts them in place together, and then their merge. -/
def sortHalves (compare : RowComparison) (rows : List Tuple) : Attempt (List Tuple) := do
  let (left, right) := rows.splitAt (rows.length / 2)
  let left ← onlyRead rows (compare.sort left)
  let right ← onlyRead rows (compare.sort right)
  onlyRead (left ++ right) (compare.sort (left ++ right))

/-! ### Runs -/

structure Run where
  rows : List Tuple
  isSorted : Bool

def Run.settle (sortRows : List Tuple → Attempt (List Tuple)) (run : Run) : Attempt (List Tuple) :=
  if run.isSorted then .ok run.rows else sortRows run.rows

/-- How many rows go on in the direction of a run, in which each row is less than the one before it
or none is. -/
def runLength (compare : RowComparison) (descends : Bool) (last : Tuple) :
    List Tuple → Outcome Nat
  | [] => .ok 0
  | row :: rest => do
    if (← compare.isLess row last) = descends then
      return (← runLength compare descends row rest) + 1
    else return 0

/-- The length of the run that rows begin with, and whether it descends. -/
def frontRun (compare : RowComparison) : List Tuple → Outcome (Nat × Bool)
  | first :: second :: rest => do
    let descends ← compare.isLess second first
    return (2 + (← compare.runLength descends second rest), descends)
  | rows => .ok (rows.length, false)

/-- A number near the square root of another one: one step from a power of two towards it. -/
def nearRoot (n : Nat) : Nat :=
  let start := Nat.pow 2 ((1 + n.log2) / 2)
  (start + n / start) / 2

def leastRunLength (count : Nat) : Nat :=
  if count ≤ 4096 then min (count - count / 2) 64 else nearRoot count

/-- The run that rows begin with. None is looked for in too few rows. -/
def findRun (compare : RowComparison) (least : Nat) (rows : List Tuple) : Outcome (Nat × Bool) :=
  if least ≤ rows.length then compare.frontRun rows else .ok (0, false)

/-- Takes a run off the front of some rows. A run that is too short gives way to a block that is
sorted at once, or to an unsorted run. -/
def takeRun (compare : RowComparison) (sortsBlocks : Bool) (least : Nat) (rows : List Tuple) :
    Attempt (Run × List Tuple) := do
  let (length, descends) ← onlyRead rows (compare.findRun least rows)
  if least ≤ length then
    let (front, rest) := rows.splitAt length
    return (⟨if descends then front.reverse else front, true⟩, rest)
  else if sortsBlocks then
    let (front, rest) := rows.splitAt blockLength
    return (⟨← between [] rest (compare.sortHalves front), true⟩, rest)
  else
    let (front, rest) := rows.splitAt least
    return (⟨front, false⟩, rest)

/-- Joins two runs. Unsorted ones wait to be sorted together. -/
def join (compare : RowComparison) (sortRows : List Tuple → Attempt (List Tuple))
    (left right : Run) : Attempt Run :=
  if left.isSorted || right.isSorted then do
    let leftRows ← between [] right.rows (left.settle sortRows)
    let rightRows ← between leftRows [] (right.settle sortRows)
    return ⟨← compare.merge leftRows rightRows, true⟩
  else return ⟨left.rows ++ right.rows, false⟩

/-- The depth at which a balanced tree over all rows parts two runs, seen from their middles. -/
def partingDepth (count start middle stop : Nat) : Nat :=
  let scale := (Nat.pow 2 62 + count - 1) / count
  63 - (scale * (start + middle) ^^^ scale * (middle + stop)).log2

/-- The rows of runs that stand with the depths at which they part from their successors, the
nearest run first. -/
def standing (before : List (Run × Nat)) : List Tuple :=
  before.reverse.flatMap fun (run, _) => run.rows

/-- Joins the last run with the runs before it, as long as they part from their successors at a
depth or below it. -/
def joinBack (compare : RowComparison) (sortRows : List Tuple → Attempt (List Tuple))
    (depth : Nat) (last : Run) : List (Run × Nat) → Attempt (Run × List (Run × Nat))
  | [] => .ok (last, [])
  | (left, leftDepth) :: before =>
    if depth ≤ leftDepth then do
      let last ← between (standing before) [] (compare.join sortRows left last)
      joinBack compare sortRows depth last before
    else .ok (last, (left, leftDepth) :: before)

/-- Takes run after run and joins those that lie deep. A run has a row at least, so that as many
steps as rows are enough. -/
def joinRuns (compare : RowComparison) (sortRows : List Tuple → Attempt (List Tuple))
    (sortsBlocks : Bool) (count : Nat) :
    Nat → List (Run × Nat) → Run → List Tuple → Attempt Run
  | steps + 1, before, last, row :: rest => do
    let (next, rest) ← between (standing before ++ last.rows) []
      (compare.takeRun sortsBlocks (leastRunLength count) (row :: rest))
    let middle := count - rest.length - next.rows.length
    let depth := partingDepth count (middle - last.rows.length) middle (middle + next.rows.length)
    let (last, before) ←
      between [] (next.rows ++ rest) (compare.joinBack sortRows depth last before)
    joinRuns compare sortRows sortsBlocks count steps ((last, depth) :: before) next rest
  | _, before, last, _ => do return (← compare.joinBack sortRows 0 last before).1

def sortRuns (compare : RowComparison) (sortRows : List Tuple → Attempt (List Tuple))
    (sortsBlocks : Bool) (rows : List Tuple) : Attempt (List Tuple) := do
  let count := rows.length
  let (first, rest) ← compare.takeRun sortsBlocks (leastRunLength count) rows
  (← compare.joinRuns sortRows sortsBlocks count count [] first rest).settle sortRows

/-! ### Parting at a pivot -/

/-- The position of the middle one of three rows. -/
def median (compare : RowComparison) (rows : Array Tuple) (a b c : Nat) : Outcome Nat := do
  let isLess i j := compare.isLess (rows.getD i []) (rows.getD j [])
  let isFirst ← isLess a b
  if isFirst = (← isLess a c) then return if (← isLess b c) = isFirst then b else c
  else return a

/-- The middle one of three rows, or of such rows from the stretches that begin with them. -/
def stretchMedian (compare : RowComparison) (rows : Array Tuple) (length a b c : Nat) :
    Outcome Nat :=
  if _h : 8 ≤ length then do
    let part := length / 8
    let a ← stretchMedian compare rows part a (a + part * 4) (a + part * 7)
    let b ← stretchMedian compare rows part b (b + part * 4) (b + part * 7)
    let c ← stretchMedian compare rows part c (c + part * 4) (c + part * 7)
    compare.median rows a b c
  else compare.median rows a b c
termination_by length

def choosePivot (compare : RowComparison) (rows : List Tuple) : Outcome Nat :=
  let part := rows.length / 8
  compare.stretchMedian rows.toArray part 0 (part * 4) (part * 7)

/-- Parts rows aside. The pivot is not asked. -/
def part (goesLeft : Tuple → Outcome Bool) (pivot : Nat) (pivotGoesLeft : Bool)
    (rows : List Tuple) : Outcome (List Tuple × List Tuple) := do
  let asked ← rows.zipIdx.mapM fun (row, index) =>
    (row, ·) <$> if index = pivot then .ok pivotGoesLeft else goesLeft row
  let (left, right) := asked.partition (·.2)
  return (left.map (·.1), right.map (·.1))

/-- Whether a pivot is not greater than the floor, if there is one. -/
def isAtFloor (compare : RowComparison) (pivot : Tuple) : Option Tuple → Outcome Bool
  | some floor => Bool.not <$> compare.isLess floor pivot
  | none => .ok false

/-- Parts the rows that are less than a pivot from the others. At the floor there are none. -/
def partLess (compare : RowComparison) (floor? : Option Tuple) (index : Nat) (pivot : Tuple)
    (rows : List Tuple) : Outcome (List Tuple × List Tuple) := do
  if ← compare.isAtFloor pivot floor? then return ([], rows)
  else part (compare.isLess · pivot) index false rows

/-- Parts the rows that are equal to the least row from the greater ones. -/
def partEqual (compare : RowComparison) (index : Nat) (pivot : Tuple) (rows : List Tuple) :
    Outcome (List Tuple × List Tuple) :=
  part (Bool.not <$> compare.isLess pivot ·) index true rows

/-- Sorts by parting rows at pivots, the greater ones first. The rows are not less than the floor,
so that rows equal to it are done. After too many partings the rest is sorted by runs. -/
def sortParts (compare : RowComparison) (limit : Nat) (floor? : Option Tuple)
    (rows : List Tuple) : Attempt (List Tuple) :=
  if rows.length ≤ blockLength then compare.sortHalves rows
  else
    match limit with
    | 0 => compare.sortRuns .ok true rows
    | limit + 1 => do
      let index ← onlyRead rows (compare.choosePivot rows)
      let pivot := rows.getD index []
      let (less, others) ← onlyRead rows (compare.partLess floor? index pivot rows)
      if less.isEmpty then
        let (equal, greater) ← onlyRead rows (compare.partEqual index pivot rows)
        let greater ← between equal [] (sortParts compare limit none greater)
        return equal ++ greater
      else
        let others ← between less [] (sortParts compare limit (some pivot) others)
        let less ← between [] others (sortParts compare limit floor? less)
        return less ++ others

/-! ### All of it -/

def sortInPlace (compare : RowComparison) (rows : List Tuple) : Attempt (List Tuple) :=
  if rows.length ≤ 20 then compare.sinkAll [] rows
  else
    let sortRows rows := compare.sortParts (2 * rows.length.log2) none rows
    compare.sortRuns sortRows (rows.length ≤ 2 * blockLength) rows

/-- The rows as a sort in place leaves them, whether or not it comes to its end. -/
def leftBySort (compare : RowComparison) (rows : List Tuple) : List Tuple :=
  match compare.sortInPlace rows with
  | .ok rows | .error rows => rows

end RowComparison

end CubeCalc
