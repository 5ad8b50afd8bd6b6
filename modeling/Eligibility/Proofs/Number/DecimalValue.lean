import Eligibility.Proofs.Number.Close
import Mathlib.Algebra.Order.Field.Power

/-!
# The value of a decimal

The rank of a decimal is a nearest one to its value, and infinity where that is too large: the bounds
on the exponent from which on no power of ten is computed change no rank.

**Results.**
* `magnitude_power`: the rank of a power of two;
* `exists_units_eq`: whole numbers of 53 bits, and their products with powers of two, are magnitudes;
* `Decimal.exists_nearest_rank`: the rank of a decimal is a nearest one.
-/

namespace Eligibility
namespace Binary64

/-! ## Powers of two -/

theorem cast_of_eq_two_pow
    {u n : Nat}
    (h : u = 2 ^ n) :
    (u : ℚ) = 2 ^ (n : ℤ) := by
  rw [h, Nat.cast_pow, zpow_natCast, Nat.cast_ofNat]

theorem cast_unitsPerOne : (unitsPerOne : ℚ) = 2 ^ (1074 : ℤ) := by
  have hcast := cast_of_eq_two_pow Decimal.unitsPerOne_eq
  rwa [Nat.cast_ofNat] at hcast

/-- The multiples of a binade are the ranks of powers of two. -/
theorem magnitude_power (t : Nat) : magnitude (t * binade + binade) = 2 ^ ((t : ℤ) - 1022) := by
  have hunits : units (t * binade + binade) = 2 ^ (52 + t) := by
    rw [units_add (by decide) (.inr le_rfl), binade_eq, Nat.pow_add]
  have hexponent : ((52 + t : Nat) : ℤ) - 1074 = t - 1022 := by omega
  rw [magnitude, cast_of_eq_two_pow hunits, cast_unitsPerOne, ← zpow_sub₀ two_ne_zero, hexponent]

theorem magnitude_infinityRank : magnitude infinityRank = 2 ^ (1024 : ℤ) :=
  magnitude_power 2046

theorem magnitude_binade : magnitude binade = 2 ^ (-1022 : ℤ) := by
  simpa using magnitude_power 0

theorem magnitude_one : magnitude 1 = 2 ^ (-1074 : ℤ) := by
  rw [magnitude, units_of_lt (by decide), cast_unitsPerOne, Nat.cast_one, one_div, zpow_neg]

/-- A whole number of 53 bits, times a power of two that is not too large, is a magnitude. -/
theorem exists_units_eq
    {m t : Nat}
    (hpos : 0 < m)
    (hm : m < 2 ^ 53)
    (ht : t ≤ 900) :
    ∃ k, 0 < k ∧ k < infinityRank ∧ units k = m * 2 ^ t * unitsPerOne := by
  have hlog : m.log2 ≤ 52 := by
    have := (Nat.log2_lt hpos.ne').mpr hm
    omega
  have hlow : binade ≤ m * 2 ^ (52 - m.log2) := by
    calc binade = 2 ^ m.log2 * 2 ^ (52 - m.log2) := by
          rw [← Nat.pow_add, Nat.add_sub_cancel' hlog, binade_eq]
      _ ≤ m * 2 ^ (52 - m.log2) := Nat.mul_le_mul_right _ (Nat.log2_self_le hpos.ne')
  have hhigh : m * 2 ^ (52 - m.log2) < 2 * binade := by
    calc m * 2 ^ (52 - m.log2) < 2 ^ (m.log2 + 1) * 2 ^ (52 - m.log2) :=
          Nat.mul_lt_mul_of_pos_right Nat.lt_log2_self (Nat.two_pow_pos _)
      _ = 2 * binade := by
          rw [← Nat.pow_add, show m.log2 + 1 + (52 - m.log2) = 53 by omega]
          decide
  refine ⟨(t + 1022 + m.log2) * binade + m * 2 ^ (52 - m.log2), ?_, ?_, ?_⟩
  · have hbinade : 0 < binade := by decide
    omega
  · simp only [binade, infinityRank] at hhigh ⊢
    omega
  · rw [units_add hhigh.le (.inr hlow), Decimal.unitsPerOne_eq, Nat.mul_assoc, Nat.mul_assoc,
      ← Nat.pow_add, ← Nat.pow_add]
    congr 2
    omega

end Binary64

namespace Decimal

open Binary64

/-- The value of a decimal. -/
def value (d : Decimal) : ℚ :=
  d.digits * 10 ^ d.exponent

theorem two_zpow_le_ten_zpow
    {e : ℤ}
    (he : 0 ≤ e) :
    (2 : ℚ) ^ (3 * e) ≤ 10 ^ e := by
  rw [zpow_mul]
  exact zpow_le_zpow_left₀ he (by norm_num) (by norm_num)

theorem ten_zpow_le_two_zpow
    {e : ℤ}
    (he : e ≤ 0) :
    (10 : ℚ) ^ e ≤ 2 ^ (3 * e) := by
  have hpos : (0 : ℚ) < 2 ^ (3 * -e) := zpow_pos two_pos _
  have hinv := inv_anti₀ hpos (two_zpow_le_ten_zpow (e := -e) (by omega))
  rwa [← zpow_neg, ← zpow_neg, neg_neg, mul_neg, neg_neg] at hinv

theorem value_nonneg (d : Decimal) : 0 ≤ d.value := by
  unfold value
  positivity

/-- From the power of ten on that counts as infinite, decimals lie beyond every finite magnitude. -/
theorem magnitude_infinityRank_le
    {d : Decimal}
    (hdigits : d.digits ≠ 0)
    (he : 400 ≤ d.exponent) :
    magnitude infinityRank ≤ d.value := by
  have hone : (1 : ℚ) ≤ d.digits := by exact_mod_cast Nat.pos_of_ne_zero hdigits
  calc magnitude infinityRank = 2 ^ (1024 : ℤ) := magnitude_infinityRank
    _ ≤ 2 ^ (3 * d.exponent) := zpow_le_zpow_right₀ (by norm_num) (by omega)
    _ ≤ 10 ^ d.exponent := two_zpow_le_ten_zpow (by omega)
    _ ≤ d.digits * 10 ^ d.exponent := le_mul_of_one_le_left (zpow_pos (by norm_num) _).le hone

/-- Decimals that count as zero are less than half the least magnitude. -/
theorem two_mul_value_le
    {d : Decimal}
    (h : (d.digits.log2 : ℤ) + 1 + 3 * d.exponent < -1080) :
    2 * d.value ≤ magnitude 1 := by
  have hdigits : (d.digits : ℚ) ≤ 2 ^ ((d.digits.log2 + 1 : Nat) : ℤ) := by
    rw [zpow_natCast]
    exact_mod_cast (Nat.lt_log2_self (n := d.digits)).le
  calc 2 * d.value ≤ 2 ^ (1 : ℤ) * (2 ^ ((d.digits.log2 + 1 : Nat) : ℤ) * 2 ^ (3 * d.exponent)) := by
        rw [value, zpow_one]
        gcongr
        exact ten_zpow_le_two_zpow (by omega)
    _ = 2 ^ (1 + (((d.digits.log2 + 1 : Nat) : ℤ) + 3 * d.exponent)) := by
        rw [← zpow_add₀ two_ne_zero, ← zpow_add₀ two_ne_zero]
    _ ≤ 2 ^ (-1074 : ℤ) := zpow_le_zpow_right₀ (by norm_num) (by omega)
    _ = magnitude 1 := magnitude_one.symm

theorem exists_nearest_whole
    (digits e : Nat) :
    ∃ k, roundRatio (digits * 10 ^ e) 1 = min infinityRank k ∧ Nearest (value ⟨digits, e⟩) k := by
  obtain ⟨k, hrank, hk⟩ := exists_nearest_roundRatio (digits * 10 ^ e) Nat.one_pos
  exact ⟨k, hrank, by simpa [value] using hk⟩

theorem exists_nearest_part
    (digits p : Nat) :
    ∃ k, roundRatio digits (10 ^ p) = min infinityRank k ∧ Nearest (value ⟨digits, -p⟩) k := by
  have hten : 0 < 10 ^ p := Nat.pow_pos (by decide)
  obtain ⟨k, hrank, hk⟩ := exists_nearest_roundRatio digits hten
  exact ⟨k, hrank, by simpa [value, div_eq_mul_inv] using hk⟩

/-- The rank of a decimal is a nearest one, and infinity where that is too large. -/
theorem exists_nearest_rank (d : Decimal) :
    ∃ k, d.rank = min infinityRank k ∧ Nearest d.value k := by
  obtain ⟨digits, e⟩ := d
  by_cases hzero : digits = 0
  · refine ⟨0, by simp [rank, hzero], .zero ?_⟩
    simpa [value, hzero] using magnitude_nonneg 1
  by_cases hlarge : 400 ≤ e
  · obtain ⟨e, rfl⟩ := Int.eq_ofNat_of_zero_le (show 0 ≤ e by omega)
    obtain ⟨k, -, hk⟩ := exists_nearest_whole digits e
    have hle : infinityRank ≤ k := hk.le_of_magnitude_le (magnitude_infinityRank_le hzero hlarge)
    refine ⟨k, ?_, hk⟩
    rw [rank, if_neg hzero, if_pos hlarge, Nat.min_eq_left hle]
  by_cases hsmall : (digits.log2 : ℤ) + 1 + 3 * e < -1080
  · refine ⟨0, ?_, .zero (two_mul_value_le hsmall)⟩
    rw [rank, if_neg hzero, if_neg hlarge, if_pos hsmall, Nat.min_zero]
  by_cases hwhole : 0 ≤ e
  · obtain ⟨e, rfl⟩ := Int.eq_ofNat_of_zero_le hwhole
    obtain ⟨k, hrank, hk⟩ := exists_nearest_whole digits e
    refine ⟨k, ?_, hk⟩
    rw [rank, if_neg hzero, if_neg hlarge, if_neg hsmall, if_pos hwhole, ← hrank]
    rfl
  · obtain ⟨p, hp⟩ := Int.eq_ofNat_of_zero_le (show 0 ≤ -e by omega)
    obtain rfl : e = -(p : ℤ) := by omega
    obtain ⟨k, hrank, hk⟩ := exists_nearest_part digits p
    refine ⟨k, ?_, hk⟩
    rw [rank, if_neg hzero, if_neg hlarge, if_neg hsmall, if_neg hwhole, ← hrank]
    simp

end Decimal
end Eligibility
