import CubeCalc.Proofs.Statistics
import CubeCalc.Proofs.TotalOrder
/-!
# Whole numbers as doubles

A count becomes a double in two steps: it is rounded to a mantissa and an exponent, and multiplied
by a power of ten, which is one. Neither step has anything to round as long as the count has no more
than 53 bits, so that the double stands for the count itself.
-/

namespace CubeCalc

open Float.Model Float.Model.UnpackedFloat

namespace Double

variable {m n : Nat} {e : Int}

/-! ### Numbers that need no rounding -/

/-- No bit is lost where only zeros are shifted out. -/
theorem repeat_shiftRightOne (m j : Nat) :
    Nat.repeat ExtendedMantissa.shiftRightOne j ⟨m * 2 ^ j, false, false⟩ = ⟨m, false, false⟩ := by
  induction j generalizing m with
  | zero =>
    rw [pow_zero, mul_one]
    rfl
  | succ j ih =>
    have hsplit : m * 2 ^ (j + 1) = m * 2 * 2 ^ j := by ring
    rw [hsplit, Nat.repeat, ih]
    simp [ExtendedMantissa.shiftRightOne]

/-- A mantissa with its leading bit in place is found again behind any zeros. -/
theorem shiftToTargetExponent_eq (hlow : 2 ^ 52 ≤ m) (hhigh : m < 2 ^ 53) (he : -1074 ≤ e)
    (j : Nat) : shiftToTargetExponent .binary64 (m * 2 ^ j) (e - j) .exact =
      (⟨m, false, false⟩, e) := by
  have hne : m * 2 ^ j ≠ 0 := Nat.mul_ne_zero (by omega) (pow_ne_zero j two_ne_zero)
  have hlog : (m * 2 ^ j).log2 = 52 + j := by
    rw [Nat.log2_eq_iff hne, pow_add, Nat.add_right_comm, pow_add]
    exact ⟨Nat.mul_le_mul_right _ hlow, Nat.mul_lt_mul_of_pos_right hhigh (Nat.two_pow_pos j)⟩
  have htarget : Format.binary64.targetExponent (totalExponent (m * 2 ^ j) (e - j)) = e := by
    change max (((m * 2 ^ j).log2 : Int) + 1 + (e - j) - 53) (-1074) = e
    rw [hlog]
    omega
  have hshift : (e - (e - j)).toNat = j := by omega
  unfold shiftToTargetExponent shiftToExponent
  simp only [htarget, hshift]
  refine Prod.ext (repeat_shiftRightOne m j) ?_
  change e - (j : Int) + (j : Int) = e
  omega

theorem roundWithAccuracy_eq (s : Sign) (hlow : 2 ^ 52 ≤ m) (hhigh : m < 2 ^ 53) (he : -1074 ≤ e)
    (j : Nat) : roundWithAccuracy .binary64 s (m * 2 ^ j) (e - j) .exact =
      .finite s m e (by omega) := by
  have hagain := shiftToTargetExponent_eq hlow hhigh he 0
  rw [pow_zero, mul_one, Nat.cast_zero, sub_zero] at hagain
  have hrounded : (⟨m, false, false⟩ : ExtendedMantissa).roundedMantissa = m := rfl
  have hne : m ≠ 0 := by omega
  unfold roundWithAccuracy
  simp only [shiftToTargetExponent_eq hlow hhigh he j, hrounded, hagain]
  exact dif_neg hne

/-- The exponent and the bits below the leading one are packed side by side. -/
theorem pack_finite (s : Sign) (hlow : 2 ^ 52 ≤ m) (hhigh : m < 2 ^ 53) (he' : e ≤ 971) :
    (UnpackedFloat.finite s m e (by omega)).pack .binary64 =
      packComponents .binary64 s (.ofNat 11 (e + 1075).toNat) (.ofNat 52 m) := by
  have hlog : m.log2 + 1 = Format.binary64.mantissaBits := by
    have hbits : m.log2 = 52 := (Nat.log2_eq_iff (by omega)).mpr ⟨hlow, hhigh⟩
    rw [hbits]
    rfl
  have hexponent :
      (e + Format.binary64.exponentBias + Format.binary64.mantissaBitsWithoutImplicit) =
        e + 1075 := by
    change e + 1023 + 52 = e + 1075
    omega
  have hfits : ¬ 2 ^ Format.binary64.exponentBits ≤ (e + 1075).toNat + 1 := by
    change ¬ 2048 ≤ _
    omega
  rw [UnpackedFloat.pack, hexponent, if_neg hfits, if_pos hlog]

/-- Packing keeps a number whose mantissa has its leading bit. -/
theorem unpack_pack_finite (s : Sign) (hlow : 2 ^ 52 ≤ m) (hhigh : m < 2 ^ 53) (he : -1074 ≤ e)
    (he' : e ≤ 971) : UnpackedFloat.unpack .binary64
      ((UnpackedFloat.finite s m e (by omega)).pack .binary64) = .finite s m e (by omega) := by
  have hexponent : (BitVec.ofNat 11 (e + 1075).toNat).toNat = (e + 1075).toNat := by
    rw [BitVec.toNat_ofNat, Nat.mod_eq_of_lt (by omega)]
  have hones : BitVec.ofNat 11 (e + 1075).toNat ≠ -1#11 := by
    rw [Ne, ← BitVec.toNat_inj, hexponent]
    change ¬ (e + 1075).toNat = 2047
    omega
  have hleast : BitVec.ofNat 11 (e + 1075).toNat ≠ 0#11 := by
    rw [Ne, ← BitVec.toNat_inj, hexponent]
    change ¬ (e + 1075).toNat = 0
    omega
  have hmantissa : (1#1 ++ BitVec.ofNat 52 m).toNat = m := by
    rw [toNat_one_append, BitVec.toNat_ofNat]
    omega
  have hbias : ((e + 1075).toNat : Int) - (Format.binary64.exponentBias +
      Format.binary64.mantissaBitsWithoutImplicit) = e := by
    change ((e + 1075).toNat : Int) - (1023 + 52) = e
    omega
  have hsign : Sign.ofBitVec s.toBitVec = s := by cases s <;> rfl
  rw [pack_finite s hlow hhigh he', UnpackedFloat.unpack]
  simp only [unpackSign_packComponents, unpackExponent_packComponents,
    unpackMantissa_packComponents, hones, hleast, if_false, hexponent, hmantissa, hbias, hsign]

/-! ### What a double stands for -/

/-- The value of the bits below the sign. -/
def exactMagnitude (x : Double) : ℚ :=
  if x.magnitude / 2 ^ 52 = 0 then (x.magnitude % 2 ^ 52 : ℕ) / 2 ^ 1074
  else (2 ^ 52 + (x.magnitude % 2 ^ 52 : ℕ)) * 2 ^ (x.magnitude / 2 ^ 52) / 2 ^ 1075

theorem exactValue_eq (x : Double) :
    x.exactValue = if x.IsNegative then -x.exactMagnitude else x.exactMagnitude := by
  have hbits := x.toNat_bits_eq
  have hbound := x.magnitude_lt
  have hexponent : x.bits.toNat / 2 ^ 52 % 2 ^ 11 = x.magnitude / 2 ^ 52 := by
    split at hbits <;> omega
  have hfraction : x.bits.toNat % 2 ^ 52 = x.magnitude % 2 ^ 52 := by
    split at hbits <;> omega
  unfold exactValue
  simp only [hexponent, hfraction]
  by_cases hneg : x.IsNegative
  · rw [if_neg (Nat.not_lt.mpr hneg), if_pos hneg]
    rfl
  · rw [if_pos (Nat.lt_of_not_le hneg), if_neg hneg]
    rfl

theorem exactMagnitude_eq {x : Double} (hform : IsForm m e)
    (hmagnitude : (x.magnitude : Int) = (e + 1074) * 2 ^ 52 + m) :
    x.exactMagnitude = m * (2 : ℚ) ^ e := by
  rw [exactMagnitude]
  obtain ⟨hlow, rfl⟩ | ⟨hlow, hhigh, hleast, -⟩ := hform
  · have hexponent : x.magnitude / 2 ^ 52 = 0 := by omega
    have hfraction : x.magnitude % 2 ^ 52 = m := by omega
    rw [if_pos hexponent, hfraction, div_eq_mul_inv, zpow_neg, zpow_ofNat]
  · have hexponent : ((x.magnitude / 2 ^ 52 : ℕ) : Int) = e + 1075 := by omega
    have hne : x.magnitude / 2 ^ 52 ≠ 0 := by omega
    have hfraction : 2 ^ 52 + x.magnitude % 2 ^ 52 = m := by omega
    have hmantissa : (2 : ℚ) ^ 52 + (x.magnitude % 2 ^ 52 : ℕ) = m := by
      rw [← hfraction]
      push_cast
      ring
    have hpower : (2 : ℚ) ^ e = 2 ^ (x.magnitude / 2 ^ 52) / 2 ^ 1075 := by
      rw [eq_sub_of_add_eq hexponent.symm, zpow_sub₀ two_ne_zero, zpow_natCast, zpow_ofNat]
    rw [if_neg hne, hmantissa, hpower, mul_div_assoc]

/-- The value of a finite double is that of its mantissa and exponent. -/
theorem exactValue_of_unpacks {x : Double} {s : Sign} {hpos : 0 < m}
    (hx : x.Unpacks (.finite s m e hpos)) : x.exactValue = (s.apply m : Int) * (2 : ℚ) ^ e := by
  cases hx with
  | finite _ hform hmagnitude =>
    rw [exactValue_eq, exactMagnitude_eq hform hmagnitude, sign]
    split
    · change -(m * (2 : ℚ) ^ e) = ((-(m : Int) : Int) : ℚ) * 2 ^ e
      push_cast
      ring
    · rfl

/-! ### Counts -/

/-- Enough zeros behind a number bring its leading bit into place. -/
theorem scaled_bounds {k : Nat} (hlow : 2 ^ k ≤ n) (hhigh : n < 2 ^ (k + 1)) (hk : k ≤ 52) :
    2 ^ 52 ≤ n * 2 ^ (52 - k) ∧ n * 2 ^ (52 - k) < 2 ^ 53 := by
  have hpos := Nat.two_pow_pos (52 - k)
  constructor
  · calc 2 ^ 52 = 2 ^ k * 2 ^ (52 - k) := by rw [← pow_add, Nat.add_sub_cancel' hk]
      _ ≤ n * 2 ^ (52 - k) := Nat.mul_le_mul_right _ hlow
  · calc n * 2 ^ (52 - k) < 2 ^ (k + 1) * 2 ^ (52 - k) := Nat.mul_lt_mul_of_pos_right hhigh hpos
      _ = 2 ^ 53 := by rw [← pow_add]; congr 1; omega

theorem unpacked_ofNat {k : Nat} (hlow : 2 ^ k ≤ n) (hhigh : n < 2 ^ (k + 1)) (hk : k ≤ 52)
    (hpos : 0 < n * 2 ^ (52 - k)) : UnpackedFloat.ofNat .binary64 n =
      .finite .positive (n * 2 ^ (52 - k)) (k - 52) hpos := by
  have hn : 0 < n := Nat.lt_of_lt_of_le (Nat.two_pow_pos k) hlow
  have hlog : n.log2 = k := (Nat.log2_eq_iff (by omega)).mpr ⟨hlow, hhigh⟩
  have htarget : Format.binary64.targetExponent (totalExponent n 0) = (k : Int) - 52 := by
    change max ((n.log2 : Int) + 1 + 0 - 53) (-1074) = (k : Int) - 52
    rw [hlog]
    omega
  have hshift : (0 - ((k : Int) - 52)).toNat = 52 - k := by omega
  have hexponent : (0 : Int) - ((52 - k : Nat) : Int) = (k : Int) - 52 := by omega
  have hround : UnpackedFloat.ofNat .binary64 n = UnpackedFloat.round .binary64 .positive n 0 := by
    have hcompare : compare (n : Int) 0 = .gt := Int.compare_eq_gt.mpr (by omega)
    unfold UnpackedFloat.ofNat UnpackedFloat.ofInt UnpackedFloat.normalize
    rw [hcompare]
    rfl
  obtain ⟨hlow', hhigh'⟩ := scaled_bounds hlow hhigh hk
  have hexact := roundWithAccuracy_eq .positive hlow' hhigh' (e := (k : Int) - 52) (by omega) 0
  rw [pow_zero, mul_one, Nat.cast_zero, sub_zero] at hexact
  rw [hround, UnpackedFloat.round]
  simp only [htarget, decreaseExponent, hshift, hexponent, Nat.shiftLeft_eq]
  exact hexact

theorem unpack_toFloat {word : UInt64} (hword : word.toNat = n) {k : Nat} (hlow : 2 ^ k ≤ n)
    (hhigh : n < 2 ^ (k + 1)) (hk : k ≤ 52) (hpos : 0 < n * 2 ^ (52 - k)) :
    word.toFloat.toModel.unpack = .finite .positive (n * 2 ^ (52 - k)) (k - 52) hpos := by
  obtain ⟨hlow', hhigh'⟩ := scaled_bounds hlow hhigh hk
  change UnpackedFloat.unpack .binary64
    ((UnpackedFloat.ofNat .binary64 word.toNat).pack .binary64) = _
  rw [hword, unpacked_ofNat hlow hhigh hk hpos]
  exact unpack_pack_finite .positive hlow' hhigh' (by omega) (by omega)

/-- To multiply by one shifts the mantissa to where it was. -/
theorem unpacks_ofNat {k : Nat} (hlow : 2 ^ k ≤ n) (hhigh : n < 2 ^ (k + 1)) (hk : k ≤ 52)
    (hpos : 0 < n * 2 ^ (52 - k)) :
    (ofNat n).Unpacks (.finite .positive (n * 2 ^ (52 - k)) (k - 52) hpos) := by
  obtain ⟨hlow', hhigh'⟩ := scaled_bounds hlow hhigh hk
  have hn : n < 2 ^ 53 := Nat.lt_of_lt_of_le hhigh (Nat.pow_le_pow_right two_pos (by omega))
  have hword : n.toUInt64.toNat = n := by
    rw [Nat.toUInt64, UInt64.toNat_ofNat']
    omega
  have hone : (Float.ofBits 4607182418800017408).toModel.unpack =
      .finite .positive (2 ^ 52) (-52) (by decide) := rfl
  have hvalue : Float.ofNat n = n.toUInt64.toFloat * Float.ofBits 4607182418800017408 := by
    change Float.ofScientific n false 0 = _
    rw [Float.ofScientific, dif_pos ⟨hn, by omega⟩]
    rfl
  have hproduct : (ofNat n).bits.toBitVec = (UnpackedFloat.mul .binary64
      n.toUInt64.toFloat.toModel.unpack
      (Float.ofBits 4607182418800017408).toModel.unpack).pack .binary64 := by
    rw [ofNat, hvalue]
    rfl
  have hexact := roundWithAccuracy_eq .positive hlow' hhigh' (e := (k : Int) - 52) (by omega) 52
  have hmul : UnpackedFloat.mul .binary64 n.toUInt64.toFloat.toModel.unpack
      (Float.ofBits 4607182418800017408).toModel.unpack =
        .finite .positive (n * 2 ^ (52 - k)) (k - 52) hpos := by
    rw [hone, unpack_toFloat hword hlow hhigh hk hpos]
    exact hexact
  have hunpack := (ofNat n).unpacks_unpack
  rw [hproduct, hmul, unpack_pack_finite .positive hlow' hhigh' (by omega) (by omega)] at hunpack
  exact hunpack

/-- A count of at most 53 bits is the number that its double stands for. -/
theorem exactValue_ofNat (hn : n < 2 ^ 53) : (ofNat n).exactValue = n := by
  by_cases hzero : n = 0
  · subst hzero
    decide +kernel
  · have hlow : 2 ^ n.log2 ≤ n := Nat.log2_self_le hzero
    have hhigh : n < 2 ^ (n.log2 + 1) := Nat.lt_log2_self
    have hk : n.log2 ≤ 52 := Nat.le_of_lt_succ ((Nat.log2_lt hzero).mpr hn)
    have hpos := Nat.mul_pos (Nat.pos_of_ne_zero hzero) (Nat.two_pow_pos (52 - n.log2))
    rw [exactValue_of_unpacks (unpacks_ofNat hlow hhigh hk hpos)]
    change (((n * 2 ^ (52 - n.log2) : ℕ) : Int) : ℚ) * (2 : ℚ) ^ ((n.log2 : Int) - 52) = n
    have hexponent : (n.log2 : Int) - 52 = -((52 - n.log2 : ℕ) : Int) := by omega
    rw [hexponent, zpow_neg, zpow_natCast]
    push_cast
    exact mul_inv_cancel_right₀ (pow_ne_zero _ two_ne_zero) _

end Double

end CubeCalc
