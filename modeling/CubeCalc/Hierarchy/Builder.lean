import CubeCalc.Failure
/-!
# Building hierarchies

A builder gives each member its ordinal, hangs members without a parent under the all member, and
names the levels.
-/

namespace CubeCalc

structure HierarchyBuilder where
  name : String
  dimension : String
  memberKind : MemberKind
  allMember? : Option Member
  defaultMember? : Option Member
  levelNames : List String
  members : List Member

namespace HierarchyBuilder

def withoutAll (name : String) : HierarchyBuilder where
  name := name
  dimension := name
  memberKind := .regular
  allMember? := none
  defaultMember? := none
  levelNames := []
  members := []

def withAll (name : String) : HierarchyBuilder :=
  let all := Member.all name ("All " ++ name ++ "s")
  { withoutAll name with allMember? := some all, levelNames := ["(All)"], members := [all] }

/-- Starts the hierarchy whose members are the measures of a cube. -/
def measures : HierarchyBuilder :=
  { withoutAll "Measures" with memberKind := .measure, levelNames := ["MeasuresLevel"] }

def setDimension (b : HierarchyBuilder) (dimension : String) : HierarchyBuilder :=
  { b with dimension := dimension }

/-- Names the levels from the top, below the level of the all member if there is one. -/
def setLevels (b : HierarchyBuilder) (names : List String) : HierarchyBuilder :=
  { b with levelNames := b.levelNames.take (if b.allMember?.isSome then 1 else 0) ++ names }

/-- The next member to be added below a parent, or on top. -/
def nextMember (b : HierarchyBuilder) (parent? : Option Member) (name : String) : Member :=
  Member.under (parent? <|> b.allMember?)
    ⟨b.name, name, UInt32.ofNat b.members.length, b.memberKind⟩

def addMember (b : HierarchyBuilder) (parent? : Option Member) (name : String) : HierarchyBuilder :=
  { b with members := b.members ++ [b.nextMember parent? name] }

def setDefault (b : HierarchyBuilder) (m : Member) : HierarchyBuilder :=
  { b with defaultMember? := some m }

/-- Without a choice the all member is the default, or else the member that was added first. -/
def default? (b : HierarchyBuilder) : Option Member :=
  b.defaultMember? <|> b.allMember? <|> b.members.head?

def maxDepth (b : HierarchyBuilder) : Nat :=
  (b.members.map Member.depth).foldl max 0

/-- A level without a name of its own is named for its depth, in two digits at least. -/
def levelName (b : HierarchyBuilder) (depth : Nat) : String :=
  b.levelNames[depth]?.getD ("Level" ++ (if depth < 10 then "0" else "") ++ toString depth)

def level (b : HierarchyBuilder) (depth : Nat) : Level := ⟨b.name, b.levelName depth, depth⟩

def build (b : HierarchyBuilder) : Outcome Hierarchy :=
  match b.default? with
  | none => violate .hierarchyWithoutMembers
  | some defaultMember => .ok {
      name := b.name
      dimension := b.dimension
      allMember? := b.allMember?
      defaultMember := defaultMember
      levels := (List.range (b.maxDepth + 1)).map b.level
      members := b.members }

end HierarchyBuilder

end CubeCalc
