import CubeCalc.Calc.Evaluate
import Mathlib.Algebra.BigOperators.Group.List.Basic
import Mathlib.Algebra.Order.Field.Basic
import Mathlib.Algebra.BigOperators.Ring.List
import Mathlib.Algebra.Order.Ring.Rat
import Mathlib.Data.Rat.Sqrt
import Mathlib.Order.Bounds.Basic
import Mathlib.Tactic.FieldSimp
import Mathlib.Tactic.LinearCombination
import Mathlib.Tactic.Ring
/-!
# Exact statistics

An accumulator keeps a running mean and a running sum of squared deviations and never sees a value
twice. In the arithmetic of an ordered field these are the mean and the sum of squared deviations of
the numbers so far, whatever else comes between them. So the results are those of the definitions,
and do not depend on the order of the values.
-/

namespace CubeCalc

/-! ### Means and deviations -/

namespace Statistics

section Extremes

variable {α : Type}

theorem min?_concat [Min α] (xs : List α) (x : α) :
    (xs ++ [x]).min? = some (xs.min?.elim x fun m => min m x) := by
  cases xs with
  | nil => rfl
  | cons y rest =>
    rw [List.cons_append, List.min?_cons', List.foldl_append, List.min?_cons']
    rfl

theorem max?_concat [Max α] (xs : List α) (x : α) :
    (xs ++ [x]).max? = some (xs.max?.elim x fun m => max m x) := by
  cases xs with
  | nil => rfl
  | cons y rest =>
    rw [List.cons_append, List.max?_cons', List.foldl_append, List.max?_cons']
    rfl

end Extremes

variable {K : Type} [Field K]

def mean (xs : List K) : K := xs.sum / xs.length

/-- The sum of squared deviations from the mean. -/
def squares (xs : List K) : K := (xs.map fun x => (x - mean xs) ^ 2).sum

variable [CharZero K]

theorem mean_mul_length (xs : List K) : mean xs * xs.length = xs.sum := by
  by_cases hxs : xs = []
  · simp [hxs]
  · have hlength : (xs.length : K) ≠ 0 := by simpa using hxs
    exact div_mul_cancel₀ xs.sum hlength

/-- The mean moves by the share of one more number in its deviation. -/
theorem mean_concat (xs : List K) (x : K) :
    mean (xs ++ [x]) = mean xs + (x - mean xs) / ((xs.length + 1 : ℕ) : K) := by
  have hlength : ((xs.length : K) + 1) ≠ 0 := Nat.cast_add_one_ne_zero xs.length
  have hsum := mean_mul_length xs
  rw [mean, List.sum_append, List.sum_singleton, List.length_append, List.length_singleton,
    Nat.cast_add, Nat.cast_one]
  field_simp
  linear_combination -hsum

/-- Squared deviations from any point are those from the mean and the distance of the two. -/
theorem sum_sq_sub_eq (xs : List K) (c : K) :
    (xs.map fun x => (x - c) ^ 2).sum = squares xs + xs.length * (mean xs - c) ^ 2 := by
  have hexpand : ∀ x : K, (x - c) ^ 2 =
      (x - mean xs) ^ 2 + (2 * (mean xs - c) * x + (c ^ 2 - mean xs ^ 2)) := by
    intro x
    ring
  have hlinear : (xs.map fun x => 2 * (mean xs - c) * x).sum = 2 * (mean xs - c) * xs.sum := by
    rw [List.sum_map_mul_left, List.map_id']
  calc (xs.map fun x => (x - c) ^ 2).sum
      = squares xs + (2 * (mean xs - c) * xs.sum + xs.length * (c ^ 2 - mean xs ^ 2)) := by
        simp only [hexpand]
        rw [List.sum_map_add, List.sum_map_add, hlinear, List.map_const', List.sum_replicate,
          nsmul_eq_mul, squares]
    _ = squares xs + xs.length * (mean xs - c) ^ 2 := by
        rw [← mean_mul_length xs]
        ring

/-- One more number adds the product of its deviations from the old mean and from the new one. -/
theorem squares_concat (xs : List K) (x : K) :
    squares (xs ++ [x]) = squares xs + (x - mean xs) * (x - mean (xs ++ [x])) := by
  have hlength : ((xs.length : K) + 1) ≠ 0 := Nat.cast_add_one_ne_zero xs.length
  have hmean := mean_concat xs x
  rw [Nat.cast_add, Nat.cast_one] at hmean
  rw [squares, List.map_append, List.sum_append, List.map_singleton, List.sum_singleton,
    sum_sq_sub_eq, hmean]
  field_simp
  ring

end Statistics

/-! ### Exact arithmetic -/

/-- An observation with its number read in another arithmetic. -/
def Observation.map {α β : Type} (read : α → β) : Observation α → Observation β
  | .number x => .number (read x)
  | .other => .other
  | .missing => .missing

def Value.number? {α : Type} (read : Double → α) : Value → Option α
  | .number x => some (read x)
  | _ => none

variable {K : Type} [Field K] [LinearOrder K]

/-- Arithmetic without rounding. Any function does for the root. -/
@[reducible]
def StatisticArithmetic.exact (root : K → K) : StatisticArithmetic K where
  ofCount := Nat.cast
  least := min
  greatest := max
  squareRoot := root

namespace Accumulator

variable (root : K → K) (read : Double → K)

/-- The accumulator after some values have been added one by one. -/
def addExactly (acc : Accumulator K) (values : List Value) : Accumulator K :=
  letI := StatisticArithmetic.exact root
  values.foldl (fun acc v => acc.add (v.observation.map read)) acc

/-- The accumulator of some values. -/
def exactly (values : List Value) : Accumulator K :=
  letI := StatisticArithmetic.exact root
  addExactly root read .start values

def computeExactly (acc : Accumulator K) (f : AggregateFunction) : Option K :=
  letI := StatisticArithmetic.exact root
  acc.compute f

/-- What an accumulator holds of some numbers, and of how many values are there. -/
structure Summarizes (acc : Accumulator K) (present : Nat) (xs : List K) : Prop where
  count_eq : acc.count = present
  numbers_eq : acc.numbers = xs.length
  sum_eq : acc.sum = xs.sum
  min?_eq : acc.min? = xs.min?
  max?_eq : acc.max? = xs.max?
  mean_eq : acc.mean = Statistics.mean xs
  squares_eq : acc.squares = Statistics.squares xs

variable {root} {acc other : Accumulator K} {present : Nat} {xs ys : List K}

namespace Summarizes

theorem start (root : K → K) (read : Double → K) : Summarizes (exactly root read []) 0 [] := by
  have hzero : ((0 : ℕ) : K) = 0 := Nat.cast_zero
  refine ⟨rfl, rfl, hzero, rfl, rfl, ?_, hzero⟩
  rw [Statistics.mean, List.sum_nil, zero_div]
  exact hzero

/-- There is one accumulator for some numbers. -/
theorem unique (h : acc.Summarizes present xs) (hother : other.Summarizes present xs) :
    acc = other := by
  cases acc
  cases other
  rw [Accumulator.mk.injEq]
  exact ⟨h.sum_eq.trans hother.sum_eq.symm, h.count_eq.trans hother.count_eq.symm,
    h.numbers_eq.trans hother.numbers_eq.symm, h.min?_eq.trans hother.min?_eq.symm,
    h.max?_eq.trans hother.max?_eq.symm, h.mean_eq.trans hother.mean_eq.symm,
    h.squares_eq.trans hother.squares_eq.symm⟩

theorem perm (h : acc.Summarizes present xs) (hperm : xs.Perm ys) : acc.Summarizes present ys := by
  have hmean : Statistics.mean xs = Statistics.mean ys := by
    rw [Statistics.mean, Statistics.mean, hperm.sum_eq, hperm.length_eq]
  refine ⟨h.count_eq, h.numbers_eq.trans hperm.length_eq, h.sum_eq.trans hperm.sum_eq,
    h.min?_eq.trans ?_, h.max?_eq.trans ?_, h.mean_eq.trans hmean, h.squares_eq.trans ?_⟩
  · ext m
    simp only [List.min?_eq_some_iff, hperm.mem_iff]
  · ext m
    simp only [List.max?_eq_some_iff, hperm.mem_iff]
  · rw [Statistics.squares, Statistics.squares, hmean]
    exact (hperm.map _).sum_eq

variable [IsStrictOrderedRing K]

theorem addNumber (h : acc.Summarizes present xs) (x : K) :
    (@Accumulator.addNumber K (.exact root) acc x).Summarizes (present + 1) (xs ++ [x]) := by
  have hmean : acc.mean + (x - acc.mean) / ((acc.numbers + 1 : ℕ) : K) =
      Statistics.mean (xs ++ [x]) := by
    rw [h.mean_eq, h.numbers_eq, Statistics.mean_concat]
  refine ⟨?_, ?_, ?_, ?_, ?_, hmean, ?_⟩
  · exact congrArg (· + 1) h.count_eq
  · rw [List.length_append, List.length_singleton, ← h.numbers_eq]
    rfl
  · rw [List.sum_append, List.sum_singleton, ← h.sum_eq]
    rfl
  · rw [Statistics.min?_concat, ← h.min?_eq]
    rfl
  · rw [Statistics.max?_concat, ← h.max?_eq]
    rfl
  · rw [Statistics.squares_concat, ← hmean, ← h.squares_eq, ← h.mean_eq]
    rfl

/-- A value is a number, or nothing, or something else that is there. -/
theorem addValue (root : K → K) (read : Double → K) (h : acc.Summarizes present xs) (v : Value) :
    (acc.addExactly root read [v]).Summarizes (present + [v].countP fun v => !v.isNull)
      (xs ++ [v].filterMap (Value.number? read)) := by
  cases v with
  | number x => exact h.addNumber (read x)
  | null =>
    change acc.Summarizes present (xs ++ [])
    rw [List.append_nil]
    exact h
  | _ =>
    change Summarizes { acc with count := acc.count + 1 } (present + 1) (xs ++ [])
    rw [List.append_nil]
    exact ⟨congrArg (· + 1) h.count_eq, h.numbers_eq, h.sum_eq, h.min?_eq, h.max?_eq, h.mean_eq,
      h.squares_eq⟩

theorem addExactly (root : K → K) (read : Double → K) (h : acc.Summarizes present xs)
    (values : List Value) :
    (acc.addExactly root read values).Summarizes (present + values.countP fun v => !v.isNull)
      (xs ++ values.filterMap (Value.number? read)) := by
  induction values generalizing acc present xs with
  | nil =>
    rw [List.filterMap_nil, List.append_nil]
    exact h
  | cons v rest ih =>
    have hrest := ih (h.addValue root read v)
    rw [Nat.add_assoc, ← List.countP_append, List.append_assoc, ← List.filterMap_append] at hrest
    exact hrest

end Summarizes

/-! ### Results -/

end Accumulator

/-- How many numbers there have to be for a result. -/
def AggregateFunction.needed : AggregateFunction → Nat
  | .count => 0
  | .var | .stdDev => 2
  | _ => 1

namespace Accumulator

variable {root : K → K} {read : Double → K} {acc : Accumulator K} {present : Nat} {xs : List K}

/-- The results for some numbers, and for how many values are there. -/
structure Reports (root : K → K) (acc : Accumulator K) (present : Nat) (xs : List K) : Prop where
  count_eq : acc.computeExactly root .count = some (present : K)
  sum_eq : xs ≠ [] → acc.computeExactly root .sum = some xs.sum
  average_eq : xs ≠ [] → acc.computeExactly root .average = some (xs.sum / xs.length)
  min_iff : ∀ x, acc.computeExactly root .min = some x ↔ IsLeast {y | y ∈ xs} x
  max_iff : ∀ x, acc.computeExactly root .max = some x ↔ IsGreatest {y | y ∈ xs} x
  varP_eq : xs ≠ [] →
    acc.computeExactly root .varP = some (Statistics.squares xs / xs.length)
  stdDevP_eq : xs ≠ [] →
    acc.computeExactly root .stdDevP = some (root (Statistics.squares xs / xs.length))
  var_eq : 2 ≤ xs.length →
    acc.computeExactly root .var = some (Statistics.squares xs / (xs.length - 1))
  stdDev_eq : 2 ≤ xs.length →
    acc.computeExactly root .stdDev = some (root (Statistics.squares xs / (xs.length - 1)))
  eq_none_iff : ∀ f, acc.computeExactly root f = none ↔ xs.length < f.needed

theorem Summarizes.reports (h : acc.Summarizes present xs) : acc.Reports root present xs := by
  have hnumbers : xs ≠ [] → ¬acc.numbers = 0 := by
    intro hxs
    rw [h.numbers_eq]
    simpa using hxs
  have hsample : 2 ≤ xs.length → ¬acc.numbers < 2 := by
    intro hxs
    rw [h.numbers_eq]
    omega
  have hone : ((1 : ℕ) : K) = 1 := Nat.cast_one
  have hmin : acc.computeExactly root .min = xs.min? := by
    by_cases hxs : xs = []
    · rw [hxs]
      exact if_pos (by rw [h.numbers_eq, hxs, List.length_nil])
    · exact (if_neg (hnumbers hxs)).trans h.min?_eq
  have hmax : acc.computeExactly root .max = xs.max? := by
    by_cases hxs : xs = []
    · rw [hxs]
      exact if_pos (by rw [h.numbers_eq, hxs, List.length_nil])
    · exact (if_neg (hnumbers hxs)).trans h.max?_eq
  refine ⟨?_, fun hxs => ?_, fun hxs => ?_, fun x => ?_, fun x => ?_, fun hxs => ?_, fun hxs => ?_,
    fun hxs => ?_, fun hxs => ?_, fun f => ?_⟩
  · exact congrArg (fun n : ℕ => some (n : K)) h.count_eq
  · rw [← h.sum_eq]
    exact if_neg (hnumbers hxs)
  · rw [← h.sum_eq, ← h.numbers_eq]
    exact if_neg (hnumbers hxs)
  · rw [hmin, List.min?_eq_some_iff]
    rfl
  · rw [hmax, List.max?_eq_some_iff]
    rfl
  · rw [← h.squares_eq, ← h.numbers_eq]
    exact if_neg (hnumbers hxs)
  · rw [← h.squares_eq, ← h.numbers_eq]
    exact if_neg (hnumbers hxs)
  · rw [← h.squares_eq, ← h.numbers_eq, ← hone]
    exact if_neg (hsample hxs)
  · rw [← h.squares_eq, ← h.numbers_eq, ← hone]
    exact if_neg (hsample hxs)
  · cases f with
    | min => simp [hmin, AggregateFunction.needed]
    | max => simp [hmax, AggregateFunction.needed]
    | _ => simp [computeExactly, compute, AggregateFunction.needed, h.numbers_eq]

/-- One pass over any values, numbers or not, computes the statistics of the numbers among them as
they are defined. A result is missing just if there are too few numbers, and none depends on the
order of the values. -/
theorem exactly_computes [IsStrictOrderedRing K] (root : K → K) (read : Double → K)
    (values : List Value) :
    (exactly root read values).Summarizes (values.countP fun v => !v.isNull)
      (values.filterMap (Value.number? read)) ∧
    (exactly root read values).Reports root (values.countP fun v => !v.isNull)
      (values.filterMap (Value.number? read)) ∧
    ∀ others : List Value, others.Perm values → ∀ f,
      (exactly root read others).computeExactly root f =
        (exactly root read values).computeExactly root f := by
  have hall : ∀ values : List Value,
      (exactly root read values).Summarizes (values.countP fun v => !v.isNull)
        (values.filterMap (Value.number? read)) := by
    intro values
    have hrun := (Summarizes.start root read).addExactly root read values
    rw [Nat.zero_add, List.nil_append] at hrun
    exact hrun
  refine ⟨hall values, (hall values).reports, fun others hothers f => ?_⟩
  have hpermuted := (hall others).perm (hothers.filterMap _)
  rw [hothers.countP_eq] at hpermuted
  rw [hpermuted.unique (hall values)]

end Accumulator

/-- The number that a finite double stands for, its sign, exponent and fraction taken apart. -/
def Double.exactValue (x : Double) : ℚ :=
  let bits : ℕ := x.bits.toNat
  let exponent : ℕ := bits / 2 ^ 52 % 2 ^ 11
  let fraction : ℕ := bits % 2 ^ 52
  let magnitude : ℚ :=
    if exponent = 0 then fraction / 2 ^ 1074 else (2 ^ 52 + fraction) * 2 ^ exponent / 2 ^ 1075
  if bits < 2 ^ 63 then magnitude else -magnitude

namespace Sales

/-- The amounts 2, 4, 4, 4, 5, 5, 7 and 9, with a missing value and one that is no number. -/
def amounts : List Value :=
  [.number ⟨0x4000000000000000⟩, .null, .number ⟨0x4010000000000000⟩,
    .number ⟨0x4010000000000000⟩, .string "n/a", .number ⟨0x4010000000000000⟩,
    .number ⟨0x4014000000000000⟩, .number ⟨0x4014000000000000⟩, .number ⟨0x401C000000000000⟩,
    .number ⟨0x4022000000000000⟩]

theorem numbers_amounts :
    amounts.filterMap (Value.number? Double.exactValue) = [2, 4, 4, 4, 5, 5, 7, 9] := by
  decide +kernel

theorem amounts_computed :
    (Accumulator.exactly Rat.sqrt Double.exactValue amounts).count = 9 ∧
    (Accumulator.exactly Rat.sqrt Double.exactValue amounts).mean = 5 ∧
    (Accumulator.exactly Rat.sqrt Double.exactValue amounts).computeExactly Rat.sqrt .varP =
      some 4 ∧
    (Accumulator.exactly Rat.sqrt Double.exactValue amounts.reverse).computeExactly Rat.sqrt .var =
      some (32 / 7) := by
  obtain ⟨hsummary, hreports, hperm⟩ :=
    Accumulator.exactly_computes Rat.sqrt Double.exactValue amounts
  rw [numbers_amounts] at hsummary hreports
  have hsquares : Statistics.squares ([2, 4, 4, 4, 5, 5, 7, 9] : List ℚ) = 32 := by
    decide +kernel
  refine ⟨hsummary.count_eq, ?_, ?_, ?_⟩
  · rw [hsummary.mean_eq]
    decide +kernel
  · rw [hreports.varP_eq (List.cons_ne_nil _ _), hsquares]
    norm_num
  · rw [hperm amounts.reverse (List.reverse_perm amounts), hreports.var_eq (by simp), hsquares]
    norm_num

end Sales

end CubeCalc
