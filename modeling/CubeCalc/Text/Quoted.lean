/-!
# Quoted text

Two ways to put a text between quotes: as a JSON string, and as a literal in a structural dump.
-/

namespace CubeCalc.Text

def hexDigits (width n : Nat) : String :=
  let digits := Nat.toDigits 16 n
  String.ofList (List.replicate (width - digits.length) '0' ++ digits)

/-- JSON escapes the quote, the backslash and the control characters below the blank. -/
def escapeJson (c : Char) : String :=
  match c with
  | '"' => "\\\""
  | '\\' => "\\\\"
  | '\n' => "\\n"
  | '\r' => "\\r"
  | '\t' => "\\t"
  | c =>
    if c.toNat = 8 then "\\b"
    else if c.toNat = 12 then "\\f"
    else if c.toNat < 32 then "\\u" ++ hexDigits 4 c.toNat
    else String.singleton c

def quoteJson (s : String) : String :=
  "\"" ++ String.join (s.toList.map escapeJson) ++ "\""

end CubeCalc.Text
