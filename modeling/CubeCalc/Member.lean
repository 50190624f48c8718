/-!
# Members

A member is one coordinate of one hierarchy. It carries its ancestors, and its unique name, which
spells the path down to it, is its identity.
-/

namespace CubeCalc

inductive MemberKind where
  | regular
  | all
  | measure
  | formula
  deriving DecidableEq, Repr

def MemberKind.name : MemberKind → String
  | .regular => "Regular"
  | .all => "All"
  | .measure => "Measure"
  | .formula => "Formula"

def MemberKind.allKinds : List MemberKind := [.regular, .all, .measure, .formula]

/-- What a member carries of its own, its ancestors apart. -/
structure MemberLabel where
  hierarchy : String
  name : String
  ordinal : UInt32
  kind : MemberKind
  deriving DecidableEq, Repr

/-- A member is a path of labels that ends in its own. -/
inductive Member where
  | root (label : MemberLabel)
  | child (parent : Member) (label : MemberLabel)
  deriving Repr

def bracketed (name : String) : String := "[" ++ name ++ "]"

namespace Member

def label : Member → MemberLabel
  | .root label => label
  | .child _ label => label

def hierarchy (m : Member) : String := m.label.hierarchy

def name (m : Member) : String := m.label.name

def ordinal (m : Member) : UInt32 := m.label.ordinal

def kind (m : Member) : MemberKind := m.label.kind

def parent? : Member → Option Member
  | .root _ => none
  | .child parent _ => some parent

def isAll (m : Member) : Bool := m.kind = .all

def isMeasure (m : Member) : Bool := m.kind = .measure

def depth : Member → Nat
  | .root _ => 0
  | .child parent _ => parent.depth + 1

/-- The path to a member. The all member is left out of the paths of the members below it. -/
def uniqueName : Member → String
  | .root label => bracketed label.hierarchy ++ "." ++ bracketed label.name
  | .child parent label =>
    if parent.isAll then bracketed label.hierarchy ++ "." ++ bracketed label.name
    else parent.uniqueName ++ "." ++ bracketed label.name

/-- A member of a hierarchy, on top or below another member. -/
def under (parent? : Option Member) (label : MemberLabel) : Member :=
  match parent? with
  | none => .root label
  | some parent => .child parent label

def all (hierarchy name : String) : Member := .root ⟨hierarchy, name, 0, .all⟩

/-- Two members are the same when their unique names are. -/
instance : BEq Member := ⟨fun a b => a.uniqueName == b.uniqueName⟩

/-- Walks up from a member until `a` is met. The walk ends once it is above the depth of `a`. -/
def isMetAbove (a : Member) : Member → Bool
  | .root label => a == .root label
  | .child parent label =>
    a == .child parent label || (a.depth ≤ parent.depth + 1 && a.isMetAbove parent)

/-- An all member is an ancestor of every member of its hierarchy. -/
def isAncestorOrSelf (a b : Member) : Bool :=
  a.hierarchy == b.hierarchy && (a.isAll || a.isMetAbove b)

/-- Members are ordered by hierarchy, then by ordinal, then by unique name. -/
def compare (a b : Member) : Ordering :=
  (Ord.compare a.hierarchy b.hierarchy).then <|
    (Ord.compare a.ordinal b.ordinal).then <|
      Ord.compare a.uniqueName b.uniqueName

instance : Ord Member := ⟨Member.compare⟩

end Member

/-- A tuple names one member for each of its columns. -/
abbrev Tuple := List Member

end CubeCalc
