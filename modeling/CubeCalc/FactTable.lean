import CubeCalc.Cell
import CubeCalc.Failure
/-!
# Fact tables

Facts are stored at full coordinates, and only if they are not empty. A coordinate without a fact
of its own has the sum of all facts below it.
-/

namespace CubeCalc

structure FactTable (α : Type) where
  width : Nat
  cells : List (List Member × CellValue α)
  deriving Repr

namespace FactTable

variable {α : Type}

def empty (width : Nat) : FactTable α := ⟨width, []⟩

def size (t : FactTable α) : Nat := t.cells.length

def get? (t : FactTable α) (coordinate : List Member) : Option (CellValue α) :=
  (t.cells.find? fun cell => cell.1 == coordinate).map (·.2)

def erase (t : FactTable α) (coordinate : List Member) : FactTable α :=
  { t with cells := t.cells.filter fun cell => !(cell.1 == coordinate) }

/-- Puts a value at a coordinate. One that is there already keeps the members of its first value. -/
def putCell (coordinate : List Member) (value : CellValue α) :
    List (List Member × CellValue α) → List (List Member × CellValue α)
  | [] => [(coordinate, value)]
  | (key, old) :: rest =>
    if key == coordinate then (key, value) :: rest
    else (key, old) :: putCell coordinate value rest

/-- An empty value takes the fact away. -/
def set (t : FactTable α) (coordinate : List Member) (value : CellValue α) :
    Outcome (FactTable α) :=
  if coordinate.length ≠ t.width then violate .coordinateWidth
  else if value.isEmpty then .ok (t.erase coordinate)
  else .ok { t with cells := putCell coordinate value t.cells }

/-- A coordinate covers a key if each of its members is the key's member or lies above it. -/
def covers (coordinate key : List Member) : Bool :=
  (coordinate.zip key).all fun pair => pair.1.isAncestorOrSelf pair.2

def covered (t : FactTable α) (coordinate : List Member) : List (CellValue α) :=
  (t.cells.filter fun cell => covers coordinate cell.1).map (·.2)

/-- The sum of facts. One that is not a number makes it an error. -/
def total [Add α] [OfNat α 0] [OfNat α 1] (facts : List (CellValue α)) : CellValue α :=
  match facts.mapM CellValue.asNumber? with
  | none => .error .value
  | some [] => .empty
  | some numbers => .number (numbers.foldl (· + ·) 0)

def valueAt [Add α] [OfNat α 0] [OfNat α 1] (t : FactTable α) (coordinate : List Member) :
    CellValue α :=
  (t.get? coordinate).getD (total (t.covered coordinate))

end FactTable

end CubeCalc
