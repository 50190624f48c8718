import CubeCalc.Double
import Mathlib
/-!
# The total order of doubles

The order by bits says of two numbers what comparing them says. It tells the zeros apart, and puts
what is not a number before or behind all numbers, by its sign. The bits below the sign count up as
the numbers do because a number unpacks into an exponent and a mantissa that are these bits, with a
leading one put in unless the exponent is the least.
-/

namespace CubeCalc

open Float.Model Float.Model.UnpackedFloat

namespace Double

/-! ### Sign and magnitude -/

abbrev IsNegative (x : Double) : Prop := 2 ^ 63 ≤ x.bits.toNat

def sign (x : Double) : Sign := if x.IsNegative then .negative else .positive

/-- The bits below the sign. -/
def magnitude (x : Double) : Nat := x.bits.toNat % 2 ^ 63

def signed (x : Double) : Int := x.sign.apply x.magnitude

variable {x y : Double}

theorem signed_eq (x : Double) :
    x.signed = if x.IsNegative then -(x.magnitude : Int) else x.magnitude := by
  rw [signed, sign]
  split <;> rfl

theorem toNat_bits_eq (x : Double) :
    x.bits.toNat = if x.IsNegative then 2 ^ 63 + x.magnitude else x.magnitude := by
  have hbits := x.bits.toNat_lt
  by_cases hx : x.IsNegative
  · rw [if_pos hx, magnitude]
    rw [IsNegative] at hx
    omega
  · rw [if_neg hx, magnitude]
    rw [IsNegative] at hx
    omega

theorem magnitude_lt (x : Double) : x.magnitude < 2 ^ 63 := Nat.mod_lt _ (by decide)

theorem totalKey_eq (x : Double) :
    x.totalKey = if x.IsNegative then -1 - (x.magnitude : Int) else x.magnitude := by
  have hpow : Nat.pow 2 63 = 9223372036854775808 := rfl
  have hbits := x.toNat_bits_eq
  have hbound := x.magnitude_lt
  unfold totalKey
  rw [hpow]
  dsimp only
  by_cases hx : x.IsNegative
  · rw [if_pos hx] at hbits ⊢
    rw [if_neg (by omega)]
    omega
  · rw [if_neg hx] at hbits ⊢
    rw [if_pos (by omega)]
    omega

/-- A negative double stands one below where its magnitude is taken off, so that zeros differ. -/
theorem totalKey_and_signed_cases (x : Double) :
    (x.IsNegative ∧ x.totalKey = -1 - (x.magnitude : Int) ∧ x.signed = -(x.magnitude : Int)) ∨
      (¬ x.IsNegative ∧ x.totalKey = x.magnitude ∧ x.signed = x.magnitude) := by
  rw [totalKey_eq, signed_eq]
  by_cases hx : x.IsNegative
  · exact .inl ⟨hx, if_pos hx, if_pos hx⟩
  · exact .inr ⟨hx, if_neg hx, if_neg hx⟩

/-! ### Unpacking -/

/-- A mantissa has its leading bit, or else the exponent is the least. -/
def IsForm (m : Nat) (e : Int) : Prop :=
  (m < 2 ^ 52 ∧ e = -1074) ∨ (2 ^ 52 ≤ m ∧ m < 2 ^ 53 ∧ -1074 ≤ e ∧ e ≤ 971)

theorem IsForm.bounds {m : Nat} {e : Int} (hform : IsForm m e) (hpos : 0 < m) :
    0 < (e + 1074) * 2 ^ 52 + (m : Int) ∧ (e + 1074) * 2 ^ 52 + (m : Int) < 2047 * 2 ^ 52 := by
  rw [IsForm] at hform
  omega

/-- What a double unpacks into. -/
inductive Unpacks (x : Double) : UnpackedFloat → Prop
  | notANumber (h : 2047 * 2 ^ 52 < x.magnitude) : Unpacks x .notANumber
  | infinity (h : x.magnitude = 2047 * 2 ^ 52) : Unpacks x (.infinity x.sign)
  | zero (h : x.magnitude = 0) : Unpacks x (.zero x.sign)
  | finite {m : Nat} {e : Int} (hpos : 0 < m) (hform : IsForm m e)
    (h : (x.magnitude : Int) = (e + 1074) * 2 ^ 52 + m) : Unpacks x (.finite x.sign m e hpos)

theorem exponentBias_eq : ((Format.binary64.exponentBias : Nat) : Int) = 1023 := rfl

theorem toNat_one_append (mantissa : BitVec 52) :
    (1#1 ++ mantissa).toNat = 2 ^ 52 + mantissa.toNat := by
  rw [BitVec.toNat_append, ← Nat.shiftLeft_add_eq_or_of_lt mantissa.isLt]
  rfl

theorem ofBitVec_unpackSign (x : Double) :
    Sign.ofBitVec (@unpackSign .binary64 x.bits.toBitVec) = x.sign := by
  have hbit : (@unpackSign .binary64 x.bits.toBitVec).toNat = x.bits.toNat / 2 ^ 63 := by
    have hbits := x.bits.toNat_lt
    change (x.bits.toNat >>> 63) % 2 = _
    rw [Nat.shiftRight_eq_div_pow, Nat.mod_eq_of_lt (by omega)]
  have hzero : @unpackSign .binary64 x.bits.toBitVec = 0#1 ↔ ¬ x.IsNegative := by
    rw [← BitVec.toNat_inj, hbit, IsNegative, BitVec.toNat_ofNat]
    omega
  rw [Sign.ofBitVec, sign]
  by_cases hx : x.IsNegative
  · rw [if_neg (fun hbit => hzero.mp hbit hx), if_pos hx]
  · rw [if_pos (hzero.mpr hx), if_neg hx]

theorem toNat_unpackExponent (x : Double) :
    (@unpackExponent .binary64 x.bits.toBitVec).toNat = x.magnitude / 2 ^ 52 := by
  change (x.bits.toNat >>> 52) % 2 ^ 11 = _
  rw [Nat.shiftRight_eq_div_pow, magnitude]
  omega

theorem toNat_unpackMantissa (x : Double) :
    (@unpackMantissa .binary64 x.bits.toBitVec).toNat = x.magnitude % 2 ^ 52 := by
  change (x.bits.toNat >>> 0) % 2 ^ 52 = _
  rw [Nat.shiftRight_zero, magnitude]
  omega

theorem unpacks_unpack (x : Double) :
    x.Unpacks (UnpackedFloat.unpack .binary64 x.bits.toBitVec) := by
  have hbound := x.magnitude_lt
  have hbias := exponentBias_eq
  have hexponent := toNat_unpackExponent x
  have hmantissa := toNat_unpackMantissa x
  have hwhole := toNat_one_append (@unpackMantissa .binary64 x.bits.toBitVec)
  have hones : @unpackExponent .binary64 x.bits.toBitVec = -1#11 ↔
      x.magnitude / 2 ^ 52 = 2047 := by
    rw [← BitVec.toNat_inj, hexponent]
    rfl
  have hleast : @unpackExponent .binary64 x.bits.toBitVec = 0#11 ↔ x.magnitude / 2 ^ 52 = 0 := by
    rw [← BitVec.toNat_inj, hexponent]
    rfl
  have hzero : @unpackMantissa .binary64 x.bits.toBitVec = 0#52 ↔ x.magnitude % 2 ^ 52 = 0 := by
    rw [← BitVec.toNat_inj, hmantissa]
    rfl
  rw [UnpackedFloat.unpack]
  simp only [ofBitVec_unpackSign]
  split
  · next hspecial =>
    rw [hones] at hspecial
    split
    · next hnone =>
      rw [hzero] at hnone
      exact .infinity (by omega)
    · next hsome =>
      rw [hzero] at hsome
      exact .notANumber (by omega)
  · next hspecial =>
    rw [hones] at hspecial
    split
    · next hsmall =>
      rw [hleast] at hsmall
      split
      · next hnone =>
        rw [hzero] at hnone
        exact .zero (by omega)
      · next hsome =>
        rw [hzero] at hsome
        exact .finite _ (.inl (by omega)) (by omega)
    · next hlarge =>
      rw [hleast] at hlarge
      exact .finite _ (.inr (by omega)) (by omega)

theorem unpack_pack_unpack (bits : BitVec 64) :
    UnpackedFloat.unpack .binary64 ((UnpackedFloat.unpack .binary64 bits).pack .binary64) =
      UnpackedFloat.unpack .binary64 bits := by
  rw [@pack_unpack .binary64 bits (by decide)]
  split
  · next hnan =>
    rw [isNaNBits, decide_eq_true_iff] at hnan
    rw [unpack_packedNaN, UnpackedFloat.unpack]
    simp only [hnan.1, if_true, if_neg hnan.2]
  · rfl

/-- A double is compared as what it unpacks into. -/
theorem unpacks_toFloat (x : Double) : x.Unpacks x.toFloat.toModel.unpack := by
  have hsame : x.toFloat.toModel.unpack = UnpackedFloat.unpack .binary64 x.bits.toBitVec :=
    unpack_pack_unpack x.bits.toBitVec
  rw [hsame]
  exact x.unpacks_unpack

/-! ### Comparing -/

theorem IsForm.compare_eq {m n : Nat} {d e : Int} (hm : IsForm m d) (hn : IsForm n e) :
    (compare d e).then (compare m n) =
      compare ((d + 1074) * 2 ^ 52 + (m : Int)) ((e + 1074) * 2 ^ 52 + (n : Int)) := by
  rw [IsForm] at hm hn
  obtain hlt | rfl | hgt := Int.lt_trichotomy d e
  · rw [Int.compare_eq_lt.mpr hlt, Int.compare_eq_lt.mpr (by omega)]
    rfl
  · rw [Int.compare_eq_eq.mpr rfl, Ordering.eq_then]
    obtain hlt | rfl | hgt := Nat.lt_trichotomy m n
    · rw [Nat.compare_eq_lt.mpr hlt, Int.compare_eq_lt.mpr (by omega)]
    · rw [Nat.compare_eq_eq.mpr rfl, Int.compare_eq_eq.mpr rfl]
    · rw [Nat.compare_eq_gt.mpr hgt, Int.compare_eq_gt.mpr (by omega)]
  · rw [Int.compare_eq_gt.mpr hgt, Int.compare_eq_gt.mpr (by omega)]
    rfl

def IsCanonical : UnpackedFloat → Prop
  | .finite _ m e _ => IsForm m e
  | _ => True

/-- Where what was unpacked stands among the integers. -/
def place? : UnpackedFloat → Option Int
  | .notANumber => none
  | .infinity s => some (s.apply (2047 * 2 ^ 52))
  | .zero _ => some 0
  | .finite s m e _ => some (s.apply ((e + 1074) * 2 ^ 52 + m))

theorem compare_neg (a b : Int) : compare (-a) (-b) = (compare a b).swap := by
  have hneg : StrictAnti fun n : Int => -n := strictMono_id.neg
  have hcmp := hneg.cmp_map_eq a b
  rwa [cmp_eq_compare, cmp_eq_compare, ← Int.compare_swap a b] at hcmp

theorem compare_unpacked_eq {u v : UnpackedFloat} (hu : IsCanonical u) (hv : IsCanonical v) :
    u.compare v = (place? u).bind fun a => (place? v).map fun b => compare a b := by
  have hlt : ∀ {a b : Int}, a < b → some Ordering.lt = some (compare a b) :=
    fun h => congrArg some (Int.compare_eq_lt.mpr h).symm
  have hgt : ∀ {a b : Int}, b < a → some Ordering.gt = some (compare a b) :=
    fun h => congrArg some (Int.compare_eq_gt.mpr h).symm
  cases u with
  | notANumber => rfl
  | zero s =>
    cases v with
    | notANumber | zero => rfl
    | infinity t => cases t <;> rfl
    | finite t n e hn =>
      obtain ⟨hlow, hhigh⟩ := IsForm.bounds hv hn
      cases t with
      | negative => exact hgt (by simp only [Sign.apply]; omega)
      | positive => exact hlt (by simp only [Sign.apply]; omega)
  | infinity s =>
    cases v with
    | notANumber => cases s <;> rfl
    | zero t => cases s <;> rfl
    | infinity t => cases s <;> cases t <;> rfl
    | finite t n e hn =>
      obtain ⟨hlow, hhigh⟩ := IsForm.bounds hv hn
      cases s with
      | negative => exact hlt (by cases t <;> simp only [Sign.apply] <;> omega)
      | positive => exact hgt (by cases t <;> simp only [Sign.apply] <;> omega)
  | finite s m d hm =>
    cases v with
    | notANumber => cases s <;> rfl
    | zero t =>
      obtain ⟨hlow, hhigh⟩ := IsForm.bounds hu hm
      cases s with
      | negative => exact hlt (by simp only [Sign.apply]; omega)
      | positive => exact hgt (by simp only [Sign.apply]; omega)
    | infinity t =>
      obtain ⟨hlow, hhigh⟩ := IsForm.bounds hu hm
      cases t with
      | negative => cases s <;> exact hgt (by simp only [Sign.apply]; omega)
      | positive => cases s <;> exact hlt (by simp only [Sign.apply]; omega)
    | finite t n e hn =>
      have hsame := IsForm.compare_eq hu hv
      obtain ⟨hlow, -⟩ := IsForm.bounds hu hm
      obtain ⟨hlow', -⟩ := IsForm.bounds hv hn
      cases s with
      | negative =>
        cases t with
        | negative =>
          change some ((compare d e).then (compare m n)).swap = some (compare (-_) (-_))
          rw [compare_neg, hsame]
        | positive => exact hlt (by simp only [Sign.apply]; omega)
      | positive =>
        cases t with
        | negative => exact hgt (by simp only [Sign.apply]; omega)
        | positive => exact congrArg some hsame

theorem Unpacks.isCanonical {u : UnpackedFloat} (hu : x.Unpacks u) : IsCanonical u := by
  cases hu with
  | notANumber | infinity | zero => trivial
  | finite hpos hform => exact hform

theorem Unpacks.place?_eq {u : UnpackedFloat} (hu : x.Unpacks u) :
    place? u = if u.isNaN then none else some x.signed := by
  cases hu with
  | notANumber => rfl
  | infinity h =>
    rw [signed, h]
    rfl
  | zero h =>
    rw [signed, h]
    cases x.sign <;> rfl
  | finite hpos hform h =>
    rw [signed, h]
    rfl

theorem Unpacks.isNaN_iff {u : UnpackedFloat} (hu : x.Unpacks u) :
    u.isNaN = true ↔ 2047 * 2 ^ 52 < x.magnitude := by
  cases hu with
  | notANumber h => exact iff_of_true rfl h
  | infinity h => exact iff_of_false nofun (by omega)
  | zero h => exact iff_of_false nofun (by omega)
  | finite hpos hform h =>
    have hbounds := hform.bounds hpos
    exact iff_of_false nofun (by omega)

theorem isNaN_iff : x.isNaN = true ↔ 2047 * 2 ^ 52 < x.magnitude := x.unpacks_toFloat.isNaN_iff

theorem compare_toFloat (x y : Double) : x.toFloat.toModel.unpack.compare y.toFloat.toModel.unpack =
    if x.isNaN || y.isNaN then none else some (compare x.signed y.signed) := by
  have hx : x.toFloat.toModel.unpack.isNaN = x.isNaN := rfl
  have hy : y.toFloat.toModel.unpack.isNaN = y.isNaN := rfl
  rw [compare_unpacked_eq x.unpacks_toFloat.isCanonical y.unpacks_toFloat.isCanonical,
    x.unpacks_toFloat.place?_eq, y.unpacks_toFloat.place?_eq, hx, hy]
  cases x.isNaN <;> cases y.isNaN <;> rfl

theorem lt_iff : x.toFloat < y.toFloat ↔
    x.isNaN = false ∧ y.isNaN = false ∧ x.signed < y.signed := by
  have hlt : x.toFloat < y.toFloat ↔
      (x.toFloat.toModel.unpack.compare y.toFloat.toModel.unpack == some .lt) = true := by
    change Float.lt _ _ = true ↔ _
    rw [Float.lt, decide_eq_true_iff]
    rfl
  rw [hlt, compare_toFloat]
  cases x.isNaN <;> cases y.isNaN <;> simp [Int.compare_eq_lt]

theorem beq_iff : (x == y) = true ↔
    x.isNaN = false ∧ y.isNaN = false ∧ x.signed = y.signed := by
  have hbeq : (x == y) = (x.toFloat.toModel.unpack.compare y.toFloat.toModel.unpack == some .eq) :=
    rfl
  rw [hbeq, compare_toFloat]
  cases x.isNaN <;> cases y.isNaN <;> simp

/-! ### The total order -/

/-- The total order of IEEE 754: numbers by their value and -0.0 before 0.0, between what is not a
number and negative, and what is not a number and positive. -/
inductive Precedes (x y : Double) : Prop
  | less (h : x.toFloat < y.toFloat)
  | zeros (h : (x == y) = true) (hx : x.IsNegative) (hy : ¬ y.IsNegative)
  | first (hx : x.isNaN = true) (hneg : x.IsNegative) (hy : y.isNaN = true → ¬ y.IsNegative)
  | last (hy : y.isNaN = true) (hpos : ¬ y.IsNegative) (hx : x.isNaN = true → x.IsNegative)
  | negativeNaNs (hx : x.isNaN = true) (hy : y.isNaN = true) (hneg : x.IsNegative)
    (hneg' : y.IsNegative) (h : y.magnitude < x.magnitude)
  | positiveNaNs (hx : x.isNaN = true) (hy : y.isNaN = true) (hpos : ¬ x.IsNegative)
    (hpos' : ¬ y.IsNegative) (h : x.magnitude < y.magnitude)

theorem totalCompare_eq_lt_iff : x.totalCompare y = .lt ↔ x.Precedes y := by
  have hx := x.totalKey_and_signed_cases
  have hy := y.totalKey_and_signed_cases
  rw [totalCompare, Int.compare_eq_lt]
  constructor
  · intro hkey
    by_cases hxnan : x.isNaN = true <;> by_cases hynan : y.isNaN = true
    · by_cases hneg : x.IsNegative <;> by_cases hneg' : y.IsNegative
      · exact .negativeNaNs hxnan hynan hneg hneg' (by omega)
      · exact .first hxnan hneg fun _ => hneg'
      · omega
      · exact .positiveNaNs hxnan hynan hneg hneg' (by omega)
    · have hlarge := isNaN_iff.mp hxnan
      have hsmall := mt isNaN_iff.mpr hynan
      exact .first hxnan (by omega) fun hynan' => absurd hynan' hynan
    · have hsmall := mt isNaN_iff.mpr hxnan
      have hlarge := isNaN_iff.mp hynan
      exact .last hynan (by omega) fun hxnan' => absurd hxnan' hxnan
    · have hnumbers : x.isNaN = false ∧ y.isNaN = false := by simp [hxnan, hynan]
      by_cases hlt : x.signed < y.signed
      · exact .less (lt_iff.mpr ⟨hnumbers.1, hnumbers.2, hlt⟩)
      · exact .zeros (beq_iff.mpr ⟨hnumbers.1, hnumbers.2, by omega⟩) (by omega) (by omega)
  · intro h
    cases h with
    | less h =>
      obtain ⟨-, -, hlt⟩ := lt_iff.mp h
      omega
    | zeros h hxneg hyneg =>
      obtain ⟨-, -, heq⟩ := beq_iff.mp h
      omega
    | first hxnan hneg hother =>
      rw [isNaN_iff] at hxnan hother
      omega
    | last hynan hpos hother =>
      rw [isNaN_iff] at hynan hother
      omega
    | negativeNaNs | positiveNaNs => omega

end Double

end CubeCalc
