import CubeCalc.Hierarchy
/-!
# Cubes

A cube is an ordered list of hierarchies. The order fixes the columns of coordinates and contexts.
-/

namespace CubeCalc

structure Cube where
  name : String
  hierarchies : List Hierarchy
  deriving Repr

namespace Cube

/-- The position of a hierarchy. Of several hierarchies with one name the last answers. -/
def ordinal? (cube : Cube) (name : String) : Option Nat :=
  go cube.hierarchies 0
where
  go : List Hierarchy → Nat → Option Nat
    | [], _ => none
    | h :: rest, i => go rest (i + 1) <|> if h.name = name then some i else none

def hierarchy? (cube : Cube) (name : String) : Option Hierarchy :=
  (cube.ordinal? name).bind fun i => cube.hierarchies[i]?

def hierarchyOf? (cube : Cube) (m : Member) : Option Hierarchy := cube.hierarchy? m.hierarchy

def defaultContext (cube : Cube) : List Member := cube.hierarchies.map Hierarchy.defaultMember

/-- The default context overridden by those members that belong to the cube. -/
def coordinate (cube : Cube) (members : List Member) : List Member :=
  members.foldl
    (fun row m =>
      match cube.ordinal? m.hierarchy with
      | some i => row.set i m
      | none => row)
    cube.defaultContext

/-- The first member of the cube, in the order of its hierarchies, that goes by a name. -/
def lookup? (cube : Cube) (name : String) : Option (Hierarchy × Member) :=
  cube.hierarchies.findSome? fun h => (h.lookup? name).map fun m => (h, m)

end Cube

end CubeCalc
