import CubeCalc.Text.Hidden
import CubeCalc.Text.Quoted
/-!
# Structural dumps

Texts in dumps are quoted so that every character that does not show stands as an escape.
-/

namespace CubeCalc.Text

def escapeDump (c : Char) : String :=
  match c with
  | '"' => "\\\""
  | '\\' => "\\\\"
  | '\n' => "\\n"
  | '\r' => "\\r"
  | '\t' => "\\t"
  | c =>
    if c.toNat = 0 then "\\0"
    else if isHidden c then "\\u\x7b" ++ hexDigits 1 c.toNat ++ "\x7d"
    else String.singleton c

def quoteDump (s : String) : String :=
  "\"" ++ String.join (s.toList.map escapeDump) ++ "\""

def dumpList (items : List String) : String := "[" ++ ", ".intercalate items ++ "]"

def dumpFields (name : String) (fields : List (String × String)) : String :=
  name ++ " \x7b " ++
    ", ".intercalate (fields.map fun field => field.1 ++ ": " ++ field.2) ++ " \x7d"

def dumpOption (item? : Option String) : String :=
  match item? with
  | some item => "Some(" ++ item ++ ")"
  | none => "None"

end CubeCalc.Text
