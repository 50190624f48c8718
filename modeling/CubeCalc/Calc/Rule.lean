import CubeCalc.StaticType
/-!
# Dependency rules

A calc depends on a hierarchy if its value can change with the current member of the hierarchy
alone. Its rule says how that follows from its children.
-/

namespace CubeCalc

inductive DependencyRule where
  | children
  | always
  | never
  | hierarchy (h : Hierarchy)
  /-- The first child is a set that the others are evaluated for. -/
  | butFirst
  /-- The children say where a cell is read. -/
  | butDepends
  deriving Repr

/-- What a rule has to know about a child: whether it depends on the hierarchy, and its type. -/
structure Dependence where
  depends : Bool
  type : StaticType

namespace DependencyRule

def anyDepends (children : List Dependence) : Bool := children.any (·.depends)

/-- Where the set spans the hierarchy it supplies positions of its own to the other children. -/
def anyDependsButFirst (h : Hierarchy) : List Dependence → Bool
  | [] => false
  | first :: rest => first.depends || (!first.type.usesHierarchy h true && anyDepends rest)

/-- A hierarchy that no child's type spans for certain is read from the context. -/
def butDependsOn (h : Hierarchy) (children : List Dependence) : Bool :=
  anyDepends children || !children.any fun child => child.type.usesHierarchy h true

def dependsOn (rule : DependencyRule) (h : Hierarchy) (children : List Dependence) : Bool :=
  match rule with
  | .children => anyDepends children
  | .always => true
  | .never => false
  | .hierarchy own => own == h
  | .butFirst => anyDependsButFirst h children
  | .butDepends => butDependsOn h children

end DependencyRule

end CubeCalc
