import CubeCalc.Cube
import CubeCalc.FactTable
/-!
# Evaluation contexts

A context holds one current member for each hierarchy of its cube. It is a plain value: to move it
without disturbing a caller is to move another value.
-/

namespace CubeCalc

structure Context where
  cube : Cube
  facts : FactTable Double
  members : List Member
  /-- Whether empty cells are to be left out of sets. -/
  nonEmpty : Bool

namespace Context

def root (cube : Cube) (facts : FactTable Double) : Context :=
  ⟨cube, facts, cube.defaultContext, false⟩

def setNonEmpty (ctx : Context) (nonEmpty : Bool) : Context := { ctx with nonEmpty := nonEmpty }

def member (ctx : Context) (h : Hierarchy) : Outcome Member :=
  match ctx.cube.ordinal? h.name with
  | none => violate (.hierarchyNotInCube h.uniqueName ctx.cube.name)
  | some i =>
    match ctx.members[i]? with
    | some m => .ok m
    | none => violate .outOfRange

/-- The current member of the hierarchy that a member belongs to. -/
def beside? (ctx : Context) (m : Member) : Option Member :=
  (ctx.cube.ordinal? m.hierarchy).bind fun i => ctx.members[i]?

/-- Makes a member the current one of its hierarchy. -/
def move (ctx : Context) (m : Member) : Outcome Context :=
  match ctx.cube.ordinal? m.hierarchy with
  | none => violate (.memberNotInCube m.uniqueName ctx.cube.name)
  | some i =>
    if i < ctx.members.length then .ok { ctx with members := ctx.members.set i m }
    else violate .outOfRange

def moveAll (ctx : Context) (members : List Member) : Outcome Context := members.foldlM move ctx

def cell (ctx : Context) : Cell := ctx.facts.valueAt ctx.members

end Context

end CubeCalc
