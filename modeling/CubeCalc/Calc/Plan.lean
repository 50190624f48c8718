import CubeCalc.Calc
/-!
# Plans

A plan shows a calc with its arguments and, below it, the plans of its children: as a tree, or as
text with one calc per line.
-/

namespace CubeCalc

inductive CalcPlan where
  | node (name : String) (arguments : Arguments) (children : List CalcPlan)
  deriving Repr

namespace CalcPlan

def name : CalcPlan → String
  | .node name _ _ => name

def arguments : CalcPlan → Arguments
  | .node _ arguments _ => arguments

def children : CalcPlan → List CalcPlan
  | .node _ _ children => children

mutual

def size : CalcPlan → Nat
  | .node _ _ children => 1 + sizes children

def sizes : List CalcPlan → Nat
  | [] => 0
  | plan :: rest => plan.size + sizes rest

end

mutual

def toJson : CalcPlan → Json
  | .node name arguments children =>
    .object [("name", .string name), ("arguments", arguments.toJson),
      ("children", .array (toJsons children))]

def toJsons : List CalcPlan → List Json
  | [] => []
  | plan :: rest => plan.toJson :: toJsons rest

end

end CalcPlan

namespace Calc

def plan : Calc → CalcPlan :=
  foldTree fun c children => .node c.className c.arguments children

/-- The line of a calc at a depth, indented by four blanks for each level above. -/
def planLine (c : Calc) (depth : Nat) : String :=
  String.ofList (List.replicate (4 * depth) ' ') ++ c.className ++ "(" ++ c.arguments.display ++
    ")\n"

/-- The plan of a calc as text: its own line, and those of its children indented under it. -/
def explain (c : Calc) : String :=
  foldTree (fun c children depth =>
    c.planLine depth ++ String.join (children.map fun child => child (depth + 1))) c 0

end Calc

end CubeCalc
