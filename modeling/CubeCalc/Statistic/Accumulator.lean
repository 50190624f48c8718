import CubeCalc.Double
/-!
# Running statistics

One pass over a sequence of observations computes its count, sum, extremes, mean and sum of
squared deviations. The arithmetic is a parameter: running programs use doubles, laws are about
exact numbers.
-/

namespace CubeCalc

inductive AggregateFunction where
  | sum
  | count
  | average
  | min
  | max
  /-- The variance of a sample. -/
  | var
  /-- The variance of a population. -/
  | varP
  | stdDev
  | stdDevP
  deriving DecidableEq, Repr

namespace AggregateFunction

def name : AggregateFunction → String
  | .sum => "Sum"
  | .count => "Count"
  | .average => "Avg"
  | .min => "Min"
  | .max => "Max"
  | .var => "Var"
  | .varP => "VarP"
  | .stdDev => "StdDev"
  | .stdDevP => "StdDevP"

def allFunctions : List AggregateFunction :=
  [.sum, .count, .average, .min, .max, .var, .varP, .stdDev, .stdDevP]

end AggregateFunction

/-- What running statistics need to know about numbers. -/
class StatisticArithmetic (α : Type) extends Add α, Sub α, Mul α, Div α where
  ofCount : Nat → α
  least : α → α → α
  greatest : α → α → α
  squareRoot : α → α

instance : StatisticArithmetic Double where
  ofCount := Double.ofNat
  least := Double.least
  greatest := Double.greatest
  squareRoot := Double.squareRoot

inductive Observation (α : Type) where
  | number (x : α)
  | other
  | missing
  deriving Repr

structure Accumulator (α : Type) where
  sum : α
  /-- The values that are there, numbers or not. -/
  count : Nat
  numbers : Nat
  min? : Option α
  max? : Option α
  mean : α
  /-- The sum of squared deviations from the mean. -/
  squares : α
  deriving Repr

namespace Accumulator

open StatisticArithmetic

variable {α : Type} [StatisticArithmetic α]

def start : Accumulator α := ⟨ofCount 0, 0, 0, none, none, ofCount 0, ofCount 0⟩

/-- The mean moves by its share of the deviation, and the squares grow by the product of the
deviations from the old mean and from the new one. -/
def addNumber (acc : Accumulator α) (x : α) : Accumulator α :=
  let numbers := acc.numbers + 1
  let deviation := x - acc.mean
  let mean := acc.mean + deviation / ofCount numbers
  { sum := acc.sum + x
    count := acc.count + 1
    numbers := numbers
    min? := some (acc.min?.elim x fun m => least m x)
    max? := some (acc.max?.elim x fun m => greatest m x)
    mean := mean
    squares := acc.squares + deviation * (x - mean) }

def add (acc : Accumulator α) : Observation α → Accumulator α
  | .number x => acc.addNumber x
  | .other => { acc with count := acc.count + 1 }
  | .missing => acc

/-- Without a number only the count has a result, and the statistics of a sample need two. -/
def compute (acc : Accumulator α) (f : AggregateFunction) : Option α :=
  let n : α := ofCount acc.numbers
  let population := acc.squares / n
  let sample := acc.squares / (n - ofCount 1)
  match f with
  | .count => some (ofCount acc.count)
  | .sum => if acc.numbers = 0 then none else some acc.sum
  | .average => if acc.numbers = 0 then none else some (acc.sum / n)
  | .min => if acc.numbers = 0 then none else acc.min?
  | .max => if acc.numbers = 0 then none else acc.max?
  | .varP => if acc.numbers = 0 then none else some population
  | .stdDevP => if acc.numbers = 0 then none else some (squareRoot population)
  | .var => if acc.numbers < 2 then none else some sample
  | .stdDev => if acc.numbers < 2 then none else some (squareRoot sample)

end Accumulator

end CubeCalc
