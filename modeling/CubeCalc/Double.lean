/-!
# Doubles

Numbers of 64 bits in which also those that are not numbers have a sign. The sign shows in the order
by bits and nowhere else.
-/

namespace CubeCalc

structure Double where
  bits : UInt64
  deriving Repr

namespace Double

def ofFloat (x : Float) : Double := ⟨x.toBits⟩

def ofNat (n : Nat) : Double := ofFloat (Float.ofNat n)

def toFloat (x : Double) : Float := Float.ofBits x.bits

instance : OfNat Double 0 := ⟨⟨0⟩⟩

instance : OfNat Double 1 := ⟨⟨0x3FF0000000000000⟩⟩

def isNaN (x : Double) : Bool := x.toFloat.isNaN

def invalid : Double := ⟨0xFFF8000000000000⟩

def ofResult (x : Float) : Double := if x.isNaN then invalid else ofFloat x

/-- Applies an operation. An operand that is not a number is handed on, the left one first. -/
def combine (op : Float → Float → Float) (x y : Double) : Double :=
  if x.isNaN then x else if y.isNaN then y else ofResult (op x.toFloat y.toFloat)

instance : Add Double := ⟨combine (· + ·)⟩

instance : Sub Double := ⟨combine (· - ·)⟩

instance : Mul Double := ⟨combine (· * ·)⟩

instance : Div Double := ⟨combine (· / ·)⟩

def squareRoot (x : Double) : Double := if x.isNaN then x else ofResult x.toFloat.sqrt

/-! ### Comparing -/

/-- Zeros are equal, and what is not a number differs from everything. -/
instance : BEq Double := ⟨fun x y => x.toFloat == y.toFloat⟩

def order? (x y : Double) : Option Ordering :=
  if x.toFloat < y.toFloat then some .lt
  else if x == y then some .eq
  else if y.toFloat < x.toFloat then some .gt
  else none

/-- The smaller number. One that is not a number gives way, and the first to an equal second. -/
def least (x y : Double) : Double :=
  if y.isNaN then x else if x.isNaN || y.toFloat ≤ x.toFloat then y else x

def greatest (x y : Double) : Double :=
  if y.isNaN then x else if x.isNaN || x.toFloat ≤ y.toFloat then y else x

/-- The place of a double in the order by bits, in which negative ones come before positive ones,
-0.0 before 0.0, and those that are not numbers at the ends. -/
def totalKey (x : Double) : Int :=
  let bits : Int := x.bits.toNat
  if bits < Nat.pow 2 63 then bits else Nat.pow 2 63 - 1 - bits

def totalCompare (x y : Double) : Ordering := compare x.totalKey y.totalKey

end Double

end CubeCalc
