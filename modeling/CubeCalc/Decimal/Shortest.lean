/-!
# Shortest decimals

A double stands for every real number that rounds to it. Its shortest decimal is the one with the
fewest digits among those numbers, and of several the nearest to the double.
-/

namespace CubeCalc.Decimal

/-- A positive number `mantissa * 2 ^ exponent`. -/
structure Binary where
  mantissa : Nat
  exponent : Int
  deriving DecidableEq, Repr

def Binary.ofFloat (x : Float) : Binary :=
  let bits : Nat := x.toBits.toNat
  let field : Nat := bits / Nat.pow 2 52 % Nat.pow 2 11
  let fraction : Nat := bits % Nat.pow 2 52
  if field = 0 then ⟨fraction, -1074⟩ else ⟨Nat.pow 2 52 + fraction, (field : Int) - 1075⟩

/-- A number `digits * 10 ^ exponent`. -/
structure Scientific where
  digits : Nat
  exponent : Int
  deriving DecidableEq, Repr

/-- Which neighbour a number halfway between two decimals goes to. -/
inductive Tie where
  | even
  | up
  deriving DecidableEq, Repr

/-- The doubles above and below a number bound its interval halfway, in quarters of its last place.
The gap below a power of two is half as wide. -/
def Binary.lowerQuarters (b : Binary) : Nat :=
  4 * b.mantissa - if b.mantissa = Nat.pow 2 52 ∧ b.exponent ≠ -1074 then 1 else 2

def Binary.upperQuarters (b : Binary) : Nat := 4 * b.mantissa + 2

/-- The factors that make whole numbers of quarters and of decimals with one exponent comparable. -/
def Binary.quarterScale (b : Binary) (place : Int) : Nat :=
  Nat.pow 2 (b.exponent - 2).toNat * Nat.pow 10 (-place).toNat

def Binary.decimalScale (b : Binary) (place : Int) : Nat :=
  Nat.pow 10 place.toNat * Nat.pow 2 (2 - b.exponent).toNat

/-- Whether `digits * 10 ^ place` rounds to a number. The ends of its interval go to the even
mantissa. -/
def Binary.covers (b : Binary) (place : Int) (digits : Nat) : Bool :=
  let x := digits * b.decimalScale place
  let lower := b.lowerQuarters * b.quarterScale place
  let upper := b.upperQuarters * b.quarterScale place
  if b.mantissa % 2 = 0 then lower ≤ x && x ≤ upper else lower < x && x < upper

/-- Of the two decimals at one place next to a number, below and above, the one that is kept. -/
def Binary.atPlace? (tie : Tie) (b : Binary) (place : Int) : Option Scientific :=
  let exact := 4 * b.mantissa * b.quarterScale place
  let unit := b.decimalScale place
  let low := exact / unit
  let high := low + 1
  match b.covers place low, b.covers place high with
  | false, false => none
  | true, false => some ⟨low, place⟩
  | false, true => some ⟨high, place⟩
  | true, true =>
    let below := exact - low * unit
    let above := high * unit - exact
    let goesUp := above < below || (above = below && (tie = .up || low % 2 = 1))
    some ⟨if goesUp then high else low, place⟩

def Binary.topPlace (b : Binary) : Int :=
  (b.exponent + b.mantissa.log2) * 30103 / 100000 + 2

def dropZeros (fuel : Nat) (s : Scientific) : Scientific :=
  match fuel with
  | 0 => s
  | fuel + 1 =>
    if s.digits ≠ 0 ∧ s.digits % 10 = 0 then dropZeros fuel ⟨s.digits / 10, s.exponent + 1⟩ else s

/-- The coarsest place with a decimal that rounds to the number wins. Seventeen digits are always
enough, and the search starts at most three places above the first. -/
def Binary.shortest (tie : Tie) (b : Binary) : Scientific :=
  let found := (List.range 22).findSome? fun (i : Nat) => b.atPlace? tie (b.topPlace - (i : Int))
  dropZeros 20 (found.getD ⟨b.mantissa, 0⟩)

/-- The double nearest to a decimal. Beyond the range of doubles this is infinity or zero. -/
def Scientific.toFloat (s : Scientific) : Float :=
  let magnitude : Int := s.digits.log2 * 30103 / 100000 + s.exponent
  if s.digits = 0 then 0.0
  else if magnitude > 320 then 1.0 / 0.0
  else if magnitude < -340 then 0.0
  else if s.exponent < 0 then Float.ofScientific s.digits true s.exponent.natAbs
  else Float.ofScientific s.digits false s.exponent.natAbs

end CubeCalc.Decimal
