import CubeCalc.Proofs.Outcome
import CubeCalc.RowLimit
/-!
# Limits by what they allow

A limit allows some numbers of rows, and refuses all others with itself and the number that was
attempted. Limits are ordered by what they allow, and what a limit lets pass a wider one does, too.
-/

namespace CubeCalc.RowLimit

open Outcome

def Allows (limit : RowLimit) (count : Nat) : Prop :=
  ∀ most, limit.rows? = some most → count ≤ most

theorem check_cases (limit : RowLimit) (attempted : Nat) :
    limit.check attempted = .ok () ∧ limit.Allows attempted ∨
      ∃ most, limit.rows? = some most ∧ most < attempted ∧
        limit.check attempted = fail (.limitExceeded attempted most) := by
  rw [check]
  cases hrows : limit.rows? with
  | none => exact .inl ⟨rfl, fun most hmost => by simp [hrows] at hmost⟩
  | some most =>
    by_cases hlt : most < attempted
    · exact .inr ⟨most, rfl, hlt, by simp [hlt]⟩
    · refine .inl ⟨by simp [hlt], fun other hother => ?_⟩
      rw [hrows, Option.some.injEq] at hother
      omega

theorem clamp_mono (limit : RowLimit) {m n : Nat} (hle : m ≤ n) :
    limit.clamp m ≤ limit.clamp n := by
  rw [clamp, clamp]
  split
  · exact Nat.le_min.mpr ⟨Nat.le_trans (Nat.min_le_left _ _) hle, Nat.min_le_right _ _⟩
  · exact hle

theorem clamp_le (limit : RowLimit) (count : Nat) : limit.clamp count ≤ count := by
  rw [clamp]
  split
  · exact Nat.min_le_left _ _
  · exact Nat.le_refl _

theorem clamp_eq_of_allows {limit : RowLimit} {count : Nat} (hallows : limit.Allows count) :
    limit.clamp count = count := by
  rw [clamp]
  split
  · next most hmost => exact Nat.min_eq_left (hallows most hmost)
  · rfl

/-! ### Wider limits -/

/-- A wider limit allows all that a narrower one does. -/
instance : LE RowLimit := ⟨fun limit wider => ∀ count, limit.Allows count → wider.Allows count⟩

variable {limit wider : RowLimit}

theorem le_refl (limit : RowLimit) : limit ≤ limit := fun _ hallows => hallows

/-- A wider limit on rows comes from a limit on rows that are not more. -/
theorem exists_rows?_of_le (hle : limit ≤ wider) {most : Nat} (hmost : wider.rows? = some most) :
    ∃ fewer, limit.rows? = some fewer ∧ fewer ≤ most := by
  cases hrows : limit.rows? with
  | none =>
    have hall := hle (most + 1) (by simp [Allows, hrows]) most hmost
    omega
  | some fewer => exact ⟨fewer, rfl, hle fewer (by simp [Allows, hrows]) most hmost⟩

/-- Zero and the negative numbers are the widest of limits. -/
theorem ofInt_le_ofInt {a b : Int} (hab : b ≤ 0 ∨ 0 < a ∧ a ≤ b) : ofInt a ≤ ofInt b := by
  intro count hallows most hmost
  rcases hab with hb | ⟨ha, hle⟩
  · simp [ofInt, hb, unbounded] at hmost
  · have hcount := hallows a.toNat (by simp [ofInt, Int.not_le.mpr ha])
    have hb : ¬b ≤ 0 := by omega
    obtain rfl : b.toNat = most := by simpa [ofInt, hb] using hmost
    omega

/-- What a limit lets pass a wider one lets pass, too. -/
theorem follows_check (hle : limit ≤ wider) (attempted : Nat) :
    Follows Eq (limit.check attempted) (wider.check attempted) := by
  rcases limit.check_cases attempted with ⟨hok, hallows⟩ | ⟨most, -, -, hfail⟩
  · rcases wider.check_cases attempted with ⟨hok', -⟩ | ⟨most, hmost, hlt, -⟩
    · rw [hok, hok']
      exact .ok rfl
    · exact absurd (hle attempted hallows most hmost) (Nat.not_le.mpr hlt)
  · rw [hfail]
    exact .exceeded attempted most _

end CubeCalc.RowLimit
