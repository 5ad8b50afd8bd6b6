import Eligibility.Proofs.Number.Exact
import Mathlib.Order.Monotone.Basic

/-!
# The order of numbers

Ranks were introduced as places in the increasing order of magnitudes.  The value of a finite number
is a whole number of units of `2 ^ -1074`, and here the order of ranks is shown to be the order of
these values.

**Results.**
* `units_succ`: the distance from one magnitude to the next;
* `units_strictMono`: a larger rank is a larger magnitude;
* `worth_lt_iff`: keys are in the order of the values;
* `compare?_of_isFinite`: finite numbers are compared by their values;
* `compare?_of_isInfinite`: an infinity lies beyond every finite number.
-/

namespace Eligibility
namespace Binary64

/-- The number of units from the magnitude of a rank to the next. -/
def step (k : Nat) : Nat :=
  2 ^ (k / binade - 1)

theorem step_pos (k : Nat) : 0 < step k :=
  Nat.two_pow_pos _

/-- From one magnitude to the next is one step of its binade. -/
theorem units_succ (k : Nat) : units (k + 1) = units k + step k := by
  unfold step
  by_cases hsmall : k + 1 < binade
  · rw [units_of_lt hsmall, units_of_lt (by omega), Nat.div_eq_of_lt (by omega)]
    rfl
  · rw [units_of_le (Nat.not_lt.mp hsmall)]
    by_cases hk : k < binade
    · -- The least normal number follows the largest subnormal one.
      have hfirst : k + 1 = binade := by omega
      rw [units_of_lt hk, hfirst, Nat.div_eq_of_lt hk]
      simp only [binade] at hfirst ⊢
      omega
    · rw [units_of_le (Nat.not_lt.mp hk)]
      by_cases hlast : k % binade + 1 = binade
      · -- A significand of ones alone is followed by a power of two.
        have hpower : (k + 1) / binade - 1 = k / binade - 1 + 1 := by
          simp only [binade] at hk hlast ⊢
          omega
        have hmod : (k + 1) % binade = 0 := by
          simp only [binade] at hlast ⊢
          omega
        rw [hpower, hmod, Nat.pow_succ, Nat.mul_comm _ 2, ← Nat.mul_assoc, ← Nat.succ_mul]
        congr 1
        omega
      · have hpower : (k + 1) / binade = k / binade := by
          simp only [binade] at hlast ⊢
          omega
        have hmod : (k + 1) % binade = k % binade + 1 := by
          simp only [binade] at hlast ⊢
          omega
        rw [hpower, hmod, ← Nat.add_assoc, Nat.succ_mul]

theorem units_lt_succ (k : Nat) : units k < units (k + 1) := by
  rw [units_succ]
  exact Nat.lt_add_of_pos_right (step_pos k)

theorem units_strictMono : StrictMono units :=
  strictMono_nat_of_lt_succ units_lt_succ

@[simp] theorem units_zero : units 0 = 0 := by decide

/-- The value of a finite number, counted in units of `2 ^ -1074`. -/
def worth (x : Binary64) : Int :=
  if x.negative then -(units x.rank : Int) else units x.rank

/-- Keys are in the order of the values. -/
theorem worth_lt_iff (x y : Binary64) : x.worth < y.worth ↔ x.key < y.key := by
  have hlt : units x.rank < units y.rank ↔ x.rank < y.rank := units_strictMono.lt_iff_lt
  have hgt : units y.rank < units x.rank ↔ y.rank < x.rank := units_strictMono.lt_iff_lt
  have hx : 0 < units x.rank ↔ 0 < x.rank := by
    simpa using units_strictMono.lt_iff_lt (a := 0) (b := x.rank)
  have hy : 0 < units y.rank ↔ 0 < y.rank := by
    simpa using units_strictMono.lt_iff_lt (a := 0) (b := y.rank)
  unfold worth key
  cases x.negative <;> cases y.negative <;> simp only [if_true, Bool.false_eq_true, if_false]
    <;> omega

/-- Numbers with the same sign and the same value are the same. -/
theorem eq_of_worth_eq
    {x y : Binary64}
    (hsign : x.negative = y.negative)
    (h : x.worth = y.worth) :
    x = y := by
  have hunits : units x.rank = units y.rank := by
    simp only [worth, hsign] at h
    split at h <;> omega
  rw [← ofRank_rank x, ← ofRank_rank y, hsign, units_strictMono.injective hunits]

theorem compare_worth (x y : Binary64) : compare x.worth y.worth = compare x.key y.key := by
  rcases lt_trichotomy x.key y.key with hlt | heq | hgt
  · rw [compare_lt_iff_lt.mpr hlt, compare_lt_iff_lt.mpr ((worth_lt_iff x y).mpr hlt)]
  · have hworth : x.worth = y.worth := by
      have hxy := worth_lt_iff x y
      have hyx := worth_lt_iff y x
      omega
    rw [compare_eq_iff_eq.mpr heq, compare_eq_iff_eq.mpr hworth]
  · rw [compare_gt_iff_gt.mpr hgt, compare_gt_iff_gt.mpr ((worth_lt_iff y x).mpr hgt)]

/-- Finite numbers are compared by their values, so both zeros are equal. -/
theorem compare?_of_isFinite
    {x y : Binary64}
    (hx : x.isFinite = true)
    (hy : y.isFinite = true) :
    compare? x y = some (compare x.worth y.worth) := by
  rw [compare?, isNaN_of_isFinite hx, isNaN_of_isFinite hy, compare_worth]
  rfl

/-- Whether the number is positive or negative infinity. -/
def isInfinite (x : Binary64) : Bool :=
  !x.isFinite && !x.isNaN

theorem rank_of_isInfinite
    {x : Binary64}
    (h : x.isInfinite = true) :
    x.rank = infinityRank := by
  simp only [isInfinite, isFinite, isNaN, Bool.and_eq_true, Bool.not_eq_true',
    decide_eq_false_iff_not] at h
  omega

/-- An infinity lies beyond every finite number. -/
theorem compare?_of_isInfinite
    {x y : Binary64}
    (hx : x.isFinite = true)
    (hy : y.isInfinite = true) :
    compare? x y = some (if y.negative then .gt else .lt) := by
  have hnan : y.isNaN = false := by
    simp only [isInfinite, Bool.and_eq_true, Bool.not_eq_true'] at hy
    exact hy.2
  have hrank : x.rank < infinityRank := by simpa [isFinite] using hx
  rw [compare?, isNaN_of_isFinite hx, hnan, if_neg (by decide)]
  congr 1
  cases hsign : y.negative with
  | false =>
      rw [if_neg (by decide), compare_lt_iff_lt]
      simp only [key, hsign, rank_of_isInfinite hy, Bool.false_eq_true, if_false]
      split <;> omega
  | true =>
      rw [if_pos rfl, compare_gt_iff_gt]
      simp only [key, hsign, rank_of_isInfinite hy, if_true]
      split <;> omega

end Binary64
end Eligibility
