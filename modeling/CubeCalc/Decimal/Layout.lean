import CubeCalc.Decimal.Shortest
/-!
# Layouts of decimals

A layout says how the shortest decimal of a double is written down.
-/

namespace CubeCalc.Decimal

structure Layout where
  tie : Tie
  /-- The exponents of the first digit that are written without an exponent; all, if absent. -/
  positional : Option (Int × Int)
  wholeMark : String
  deriving Repr

/-- The digits of a number with the point behind the first `lead` of them. -/
def pointed (digits : List Char) (lead : Int) (wholeMark : String) : String :=
  let length : Int := digits.length
  if lead ≤ 0 then "0." ++ String.ofList (List.replicate (-lead).toNat '0' ++ digits)
  else if length ≤ lead then
    String.ofList (digits ++ List.replicate (lead - length).toNat '0') ++ wholeMark
  else String.ofList (digits.take lead.toNat) ++ "." ++ String.ofList (digits.drop lead.toNat)

/-- One digit, the others behind a point, and a signed exponent. -/
def withExponent (digits : List Char) (exponent : Int) : String :=
  let rest := digits.drop 1
  let point := if rest.isEmpty then "" else "."
  let sign := if exponent < 0 then "-" else "+"
  String.ofList (digits.take 1) ++ point ++ String.ofList rest ++ "e" ++ sign ++
    toString exponent.natAbs

def Layout.renderMagnitude (layout : Layout) (x : Float) : String :=
  let binary := Binary.ofFloat x
  if binary.mantissa = 0 then "0" ++ layout.wholeMark
  else
    let shortest := binary.shortest layout.tie
    let digits := (toString shortest.digits).toList
    let first := shortest.exponent + digits.length - 1
    let isPositional := layout.positional.all fun range => range.1 ≤ first && first ≤ range.2
    if isPositional then pointed digits (first + 1) layout.wholeMark else withExponent digits first

/-- The text of a finite double. Zero keeps its sign. -/
def Layout.render (layout : Layout) (x : Float) : String :=
  (if x.toBits ≥ 0x8000000000000000 then "-" else "") ++ layout.renderMagnitude x

end CubeCalc.Decimal
