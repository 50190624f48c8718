import CubeCalc.Calc
import CubeCalc.Text.Dump
/-!
# Dumps of calcs
-/

namespace CubeCalc

mutual

def StaticType.dump : StaticType → String
  | .boolean => "Boolean"
  | .numeric => "Numeric"
  | .string => "String"
  | .scalar => "Scalar"
  | .null => "Null"
  | .void => "Void"
  | .member h? => "Member(" ++ Text.dumpOption (h?.map Hierarchy.uniqueName) ++ ")"
  | .level h? => "Level(" ++ Text.dumpOption (h?.map Hierarchy.uniqueName) ++ ")"
  | .hierarchy h? => "Hierarchy(" ++ Text.dumpOption (h?.map Hierarchy.uniqueName) ++ ")"
  | .dimension name? => "Dimension(" ++ Text.dumpOption (name?.map Text.quoteDump) ++ ")"
  | .tuple columns => "Tuple(" ++ Text.dumpList (StaticType.dumps columns) ++ ")"
  | .set element => "Set(" ++ element.dump ++ ")"

def StaticType.dumps : List StaticType → List String
  | [] => []
  | type :: rest => type.dump :: StaticType.dumps rest

end

def DependencyRule.dump : DependencyRule → String
  | .children => "Children"
  | .always => "Always"
  | .never => "Never"
  | .hierarchy h => "Hierarchy(" ++ h.uniqueName ++ ")"
  | .butFirst => "ButFirst"
  | .butDepends => "ButDepends"

/-- A calc of the generic variant leaves its style out. -/
def Calc.dump : Calc → String :=
  Calc.foldTree fun c children =>
    let style := if c.variant = .generic then [] else [("result_style", c.style.requestName)]
    Text.dumpFields c.variant.name <|
      [("name", Text.quoteDump c.name), ("type", c.type.dump)] ++ style ++
        [("rule", c.rule.dump), ("children", Text.dumpList children)]

end CubeCalc
