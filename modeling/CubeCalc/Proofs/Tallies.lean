import CubeCalc.Proofs.Statistics
import Mathlib.Data.List.Induction
/-!
# Statistics of values

What values come to when they are added one after the other. Numbers are added up in order, in the
arithmetic of doubles. Nulls change nothing, and whatever else is there is counted and nothing else.
-/

namespace CubeCalc

namespace Value

def isNumber : Value → Bool
  | .number _ => true
  | _ => false

/-- The numbers among some values. -/
def numbers (values : List Value) : List Double := values.filterMap (number? id)

/-- How many values are there, numbers or not. -/
def present (values : List Value) : Nat := values.countP fun v => !v.isNull

/-- The statistics of some values, added in order. -/
def statistics (values : List Value) : Accumulator Double :=
  values.foldl (fun statistics v => statistics.add v.observation) .start

end Value

/-! ### Sums of doubles -/

namespace Double

def sum (xs : List Double) : Double := xs.foldl (· + ·) 0

/-- The mean of numbers and the sum of their squared deviations, each brought up to date number by
number. -/
def deviations (xs : List Double) : Double × Double :=
  xs.zipIdx.foldl
    (fun (mean, squares) (x, i) =>
      let next := mean + (x - mean) / .ofNat (i + 1)
      (next, squares + (x - mean) * (x - next)))
    (0, 0)

theorem sum_concat (xs : List Double) (x : Double) : sum (xs ++ [x]) = sum xs + x :=
  List.foldl_concat ..

theorem deviations_concat (xs : List Double) (x : Double) :
    deviations (xs ++ [x]) =
      let (mean, squares) := deviations xs
      let next := mean + (x - mean) / .ofNat (xs.length + 1)
      (next, squares + (x - mean) * (x - next)) := by
  rw [deviations, List.zipIdx_append, List.foldl_append, Nat.zero_add]
  rfl

/-- The last of the numbers that are picked one after the other. -/
def pick? (pick : Double → Double → Double) (xs : List Double) : Option Double :=
  xs.head?.map (xs.tail.foldl pick)

theorem pick?_concat (pick : Double → Double → Double) (xs : List Double) (x : Double) :
    pick? pick (xs ++ [x]) = some ((pick? pick xs).elim x fun m => pick m x) := by
  cases xs with
  | nil => rfl
  | cons y rest =>
    change some ((rest ++ [x]).foldl pick y) = some (pick (rest.foldl pick y) x)
    rw [List.foldl_concat]

end Double

/-- The result for some numbers, of which there are enough, and for how many values are there. -/
def AggregateFunction.resultOf? (present : Nat) (xs : List Double) :
    AggregateFunction → Option Double
  | .count => some (.ofNat present)
  | .sum => some (.sum xs)
  | .average => some (.sum xs / .ofNat xs.length)
  | .min => Double.pick? Double.least xs
  | .max => Double.pick? Double.greatest xs
  | .varP => some ((Double.deviations xs).2 / .ofNat xs.length)
  | .stdDevP => some ((Double.deviations xs).2 / .ofNat xs.length).squareRoot
  | .var => some ((Double.deviations xs).2 / (.ofNat xs.length - .ofNat 1))
  | .stdDev => some ((Double.deviations xs).2 / (.ofNat xs.length - .ofNat 1)).squareRoot

/-! ### Tallies -/

namespace Accumulator

variable {acc : Accumulator Double} {present : Nat} {xs : List Double}

/-- What an accumulator holds of some numbers, and of how many values are there. -/
structure Tallies (acc : Accumulator Double) (present : Nat) (xs : List Double) : Prop where
  count_eq : acc.count = present
  numbers_eq : acc.numbers = xs.length
  sum_eq : acc.sum = .sum xs
  min?_eq : acc.min? = Double.pick? Double.least xs
  max?_eq : acc.max? = Double.pick? Double.greatest xs
  deviations_eq : (acc.mean, acc.squares) = Double.deviations xs

namespace Tallies

theorem start : Tallies .start 0 [] := ⟨rfl, rfl, rfl, rfl, rfl, rfl⟩

theorem addNumber (h : acc.Tallies present xs) (x : Double) :
    (acc.addNumber x).Tallies (present + 1) (xs ++ [x]) := by
  refine ⟨congrArg (· + 1) h.count_eq, ?_, ?_, ?_, ?_, ?_⟩
  · rw [List.length_append, List.length_singleton, ← h.numbers_eq]
    rfl
  · rw [Double.sum_concat, ← h.sum_eq]
    rfl
  · rw [Double.pick?_concat, ← h.min?_eq]
    rfl
  · rw [Double.pick?_concat, ← h.max?_eq]
    rfl
  · rw [Double.deviations_concat, ← h.deviations_eq, ← h.numbers_eq]
    rfl

theorem addOther (h : acc.Tallies present xs) : (acc.add .other).Tallies (present + 1) xs :=
  ⟨congrArg (· + 1) h.count_eq, h.numbers_eq, h.sum_eq, h.min?_eq, h.max?_eq, h.deviations_eq⟩

/-- A result is missing just if there are too few numbers for it. -/
theorem compute_eq (h : acc.Tallies present xs) (f : AggregateFunction) :
    acc.compute f = if xs.length < f.needed then none else f.resultOf? present xs := by
  have hsquares : acc.squares = (Double.deviations xs).2 := congrArg Prod.snd h.deviations_eq
  have hnone : xs.length = 0 ↔ xs.length < 1 := Nat.lt_one_iff.symm
  unfold compute
  cases f with
  | count =>
    rw [h.count_eq]
    rfl
  | sum | average =>
    simp only [h.numbers_eq, hnone, h.sum_eq]
    rfl
  | min =>
    simp only [h.numbers_eq, hnone, h.min?_eq]
    rfl
  | max =>
    simp only [h.numbers_eq, hnone, h.max?_eq]
    rfl
  | varP | stdDevP =>
    simp only [h.numbers_eq, hnone, hsquares]
    rfl
  | var | stdDev =>
    simp only [h.numbers_eq, hsquares]
    rfl

end Tallies

end Accumulator

namespace Value

variable {values : List Value}

theorem statistics_concat (values : List Value) (v : Value) :
    statistics (values ++ [v]) = (statistics values).add v.observation :=
  List.foldl_concat ..

/-- Every value is counted that is there, and every number added up. -/
theorem statistics_tallies (values : List Value) :
    (statistics values).Tallies (present values) (numbers values) := by
  induction values using List.reverseRecOn with
  | nil => exact .start
  | append_singleton values v ih =>
    have hnumbers : numbers (values ++ [v]) = numbers values ++ numbers [v] :=
      List.filterMap_append
    have hpresent : present (values ++ [v]) = present values + present [v] := List.countP_append
    rw [statistics_concat, hnumbers, hpresent]
    cases v with
    | number x => exact ih.addNumber x
    | null =>
      change (statistics values).Tallies (present values) (numbers values ++ [])
      rwa [List.append_nil]
    | _ =>
      change ((statistics values).add .other).Tallies (present values + 1) (numbers values ++ [])
      rw [List.append_nil]
      exact ih.addOther

/-- Nulls change nothing. -/
theorem statistics_filter_not_isNull (values : List Value) :
    statistics (values.filter fun v => !v.isNull) = statistics values := by
  unfold statistics
  generalize (Accumulator.start : Accumulator Double) = statistics
  induction values generalizing statistics with
  | nil => rfl
  | cons v rest ih =>
    cases v with
    | null => exact ih statistics
    | _ => exact ih _

/-- Values that are not numbers only matter where values are counted. -/
theorem compute_filter_isNumber (values : List Value) {function : AggregateFunction}
    (hfunction : function ≠ .count) :
    (statistics (values.filter isNumber)).compute function =
      (statistics values).compute function := by
  have hnumbers : numbers (values.filter isNumber) = numbers values := by
    rw [numbers, List.filterMap_filter]
    refine List.filterMap_congr fun v _ => ?_
    cases v <;> rfl
  rw [(statistics_tallies _).compute_eq, (statistics_tallies _).compute_eq, hnumbers]
  cases function with
  | count => exact absurd rfl hfunction
  | _ => rfl

end Value

end CubeCalc
