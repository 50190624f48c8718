import CubeCalc.Member
/-!
# Hierarchies and levels

A hierarchy lists its members in the order in which they were added, parents first. Its default
member is the position that a context takes when nothing else is said.
-/

namespace CubeCalc

/-- The members of one hierarchy at one depth go by the name of their level. -/
structure Level where
  hierarchy : String
  name : String
  depth : Nat
  deriving DecidableEq, Repr

def Level.uniqueName (level : Level) : String :=
  bracketed level.hierarchy ++ "." ++ bracketed level.name

structure Hierarchy where
  name : String
  dimension : String
  allMember? : Option Member
  defaultMember : Member
  levels : List Level
  members : List Member
  deriving Repr

namespace Hierarchy

def uniqueName (h : Hierarchy) : String := bracketed h.name

/-- Two hierarchies are the same when their unique names are. -/
instance : BEq Hierarchy := ⟨fun a b => a.uniqueName == b.uniqueName⟩

def hasAll (h : Hierarchy) : Bool := h.allMember?.isSome

def level? (h : Hierarchy) (depth : Nat) : Option Level :=
  h.levels.find? fun level => level.depth == depth

def membersAtDepth (h : Hierarchy) (depth : Nat) : List Member :=
  h.members.filter fun m => m.depth == depth

def children (h : Hierarchy) (parent : Member) : List Member :=
  h.members.filter fun m => m.parent?.any (· == parent)

/-- A unique name is tried before a plain one, and of equal names the first member answers. -/
def lookup? (h : Hierarchy) (name : String) : Option Member :=
  (h.members.find? fun m => m.uniqueName == name) <|> h.members.find? fun m => m.name == name

def contains (h : Hierarchy) (m : Member) : Bool := m.hierarchy == h.name

end Hierarchy

end CubeCalc
