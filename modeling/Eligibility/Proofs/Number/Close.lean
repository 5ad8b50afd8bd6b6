import Eligibility.Proofs.Number.Nearest
import Mathlib.Algebra.Order.Ring.Pow

/-!
# Errors of rounding

The error of a computation in several roundings is bounded by a power of `1 + 2 ^ -53`: one factor for
each rounding to a normal number.  These errors multiply along products and quotients, and since each
magnitude is larger than the one before by a factor of more than `1 + 2 ^ -53`, an error of `n` factors
moves a nearest rank by at most `n` places.

**Results.**
* `Close.trans`, `Close.mul`, `Close.div`: how errors add up;
* `Nearest.close`: the error of one rounding;
* `Nearest.le_add_of_close`: how far an error moves a nearest rank.
-/

namespace Eligibility
namespace Binary64

/-- The factor by which rounding changes a normal number at most. -/
def roundoff : ℚ :=
  1 + 1 / 2 ^ 53

theorem roundoff_pos : 0 < roundoff := by
  unfold roundoff
  positivity

theorem one_le_roundoff : 1 ≤ roundoff := by
  norm_num [roundoff]

/-- Positive numbers that differ by at most `n` factors of `roundoff`. -/
structure Close (n : Nat) (x y : ℚ) : Prop where
  left_pos : 0 < x
  right_pos : 0 < y
  le : x ≤ y * roundoff ^ n
  ge : y ≤ x * roundoff ^ n

namespace Close

variable {m n : Nat} {x y z x' y' : ℚ}

theorem refl (hx : 0 < x) : Close 0 x x :=
  ⟨hx, hx, by simp, by simp⟩

theorem symm (h : Close n x y) : Close n y x :=
  ⟨h.right_pos, h.left_pos, h.ge, h.le⟩

theorem mono
    (h : Close m x y)
    (hmn : m ≤ n) :
    Close n x y := by
  have hpow : roundoff ^ m ≤ roundoff ^ n := pow_le_pow_right₀ one_le_roundoff hmn
  have hx := h.left_pos
  have hy := h.right_pos
  exact ⟨hx, hy, h.le.trans (by gcongr), h.ge.trans (by gcongr)⟩

theorem trans_le
    (hxy : x ≤ y * roundoff ^ m)
    (hyz : y ≤ z * roundoff ^ n) :
    x ≤ z * roundoff ^ (m + n) := by
  have hpow : 0 < roundoff ^ m := pow_pos roundoff_pos m
  calc x ≤ y * roundoff ^ m := hxy
    _ ≤ z * roundoff ^ n * roundoff ^ m := by gcongr
    _ = z * roundoff ^ (m + n) := by ring

/-- Errors add up along a chain. -/
theorem trans
    (hxy : Close m x y)
    (hyz : Close n y z) :
    Close (m + n) x z where
  left_pos := hxy.left_pos
  right_pos := hyz.right_pos
  le := trans_le hxy.le hyz.le
  ge := by
    rw [Nat.add_comm]
    exact trans_le hyz.ge hxy.ge

theorem mul_right
    (h : Close n x y)
    (hz : 0 < z) :
    Close n (x * z) (y * z) where
  left_pos := mul_pos h.left_pos hz
  right_pos := mul_pos h.right_pos hz
  le := by
    rw [mul_right_comm]
    exact mul_le_mul_of_nonneg_right h.le hz.le
  ge := by
    rw [mul_right_comm]
    exact mul_le_mul_of_nonneg_right h.ge hz.le

/-- The errors of two factors add up. -/
theorem mul
    (h : Close m x y)
    (h' : Close n x' y') :
    Close (m + n) (x * x') (y * y') := by
  have hright := h'.mul_right h.right_pos
  rw [mul_comm x', mul_comm y'] at hright
  exact (h.mul_right h'.left_pos).trans hright

theorem inv (h : Close n x y) : Close n x⁻¹ y⁻¹ := by
  have hx := h.left_pos
  have hy := h.right_pos
  refine ⟨inv_pos.mpr hx, inv_pos.mpr hy, ?_, ?_⟩
  · rw [inv_mul_eq_div, le_div_iff₀ hy, inv_mul_eq_div, div_le_iff₀ hx, mul_comm]
    exact h.ge
  · rw [inv_mul_eq_div, le_div_iff₀ hx, inv_mul_eq_div, div_le_iff₀ hy, mul_comm]
    exact h.le

theorem div
    (h : Close m x y)
    (h' : Close n x' y') :
    Close (m + n) (x / x') (y / y') := by
  rw [div_eq_mul_inv, div_eq_mul_inv]
  exact h.mul h'.inv

end Close

/-! ## The error of one rounding -/

/-- Magnitudes grow by more than the error of one rounding. -/
theorem magnitude_mul_roundoff_lt (k : Nat) : magnitude k * roundoff < magnitude (k + 1) := by
  have hstep : (units k : ℚ) < 2 ^ 53 * step k := by exact_mod_cast units_lt_step k
  have hU := cast_unitsPerOne_pos
  rw [magnitude_succ, magnitude, roundoff, mul_add, mul_one, div_mul_div_comm, mul_one]
  gcongr ?_ + ?_
  rw [div_lt_div_iff₀ (by positivity) hU]
  nlinarith

theorem magnitude_mul_roundoff_pow_lt (k n : Nat) :
    magnitude k * roundoff ^ (n + 1) < magnitude (k + (n + 1)) := by
  induction n with
  | zero => simpa using magnitude_mul_roundoff_lt k
  | succ n ih =>
      calc magnitude k * roundoff ^ (n + 1 + 1) = magnitude k * roundoff ^ (n + 1) * roundoff := by
            ring
        _ < magnitude (k + (n + 1)) * roundoff := mul_lt_mul_of_pos_right ih roundoff_pos
        _ < magnitude (k + (n + 1 + 1)) := magnitude_mul_roundoff_lt (k + (n + 1))

/-- From the rank `i` on, the next magnitude is larger by at most `2 * n` errors. -/
theorem magnitude_succ_le
    {n i k : Nat}
    (hn : 1 ≤ n)
    (hi : binade ≤ n * i)
    (hk : i ≤ k) :
    magnitude (k + 1) ≤ magnitude k + 2 * (n / 2 ^ 53) * magnitude k := by
  have hstep : (binade : ℚ) * step k ≤ n * units k := by exact_mod_cast step_le_units hn hi hk
  have hU := cast_unitsPerOne_pos
  have hbinade : (binade : ℚ) = 2 ^ 52 := by exact_mod_cast congrArg (Nat.cast (R := ℚ)) binade_eq
  rw [hbinade] at hstep
  rw [magnitude_succ, magnitude, mul_div_assoc']
  generalize (unitsPerOne : ℚ) = U at hU ⊢
  gcongr
  linarith

/-- The error of rounding a number that is not too close to zero: `n` is 1 for normal numbers. -/
theorem Nearest.close
    {q : ℚ} {k n i : Nat}
    (h : Nearest q k)
    (hn : 1 ≤ n)
    (hi : binade ≤ n * i)
    (hq : magnitude i ≤ q) :
    Close n (magnitude k) q := by
  have hik : i ≤ k := h.le_of_magnitude_le hq
  have hi_pos : 0 < i := by
    by_contra hzero
    rw [Nat.eq_zero_of_not_pos hzero] at hi
    simp [binade] at hi
  have hpow : 1 + n / 2 ^ 53 ≤ roundoff ^ n := by
    have hbernoulli := one_add_mul_le_pow (show (-2 : ℚ) ≤ 1 / 2 ^ 53 by norm_num) n
    rwa [mul_one_div] at hbernoulli
  have hq_pos : 0 < q := (magnitude_pos hi_pos).trans_le hq
  refine ⟨magnitude_pos (hi_pos.trans_le hik), hq_pos, ?_, ?_⟩
  · refine le_trans ?_ (mul_le_mul_of_nonneg_left hpow hq_pos.le)
    rcases hik.eq_or_lt with rfl | hlt
    · exact hq.trans (le_mul_of_one_le_right hq_pos.le (le_add_of_nonneg_right (by positivity)))
    · obtain ⟨j, rfl⟩ : ∃ j, k = j + 1 := ⟨k - 1, by omega⟩
      have hmiddle := h.middle_le j rfl
      have hnext := magnitude_succ_le hn hi (Nat.le_of_lt_succ hlt)
      have hlt : magnitude j < magnitude (j + 1) := magnitude_strictMono (Nat.lt_succ_self j)
      have herror : (0 : ℚ) ≤ n / 2 ^ 53 := by positivity
      generalize (n : ℚ) / 2 ^ 53 = error at *
      nlinarith
  · refine le_trans ?_ (mul_le_mul_of_nonneg_left hpow (magnitude_nonneg k))
    have hmiddle := h.le_middle
    have hnext := magnitude_succ_le hn hi hik
    linarith

/-! ## Ranks of close numbers -/

/-- An error of some factors moves a nearest rank by at most as many places. -/
theorem Nearest.le_add_of_close
    {q q' : ℚ} {k k' n : Nat}
    (h : Nearest q k)
    (h' : Nearest q' k')
    (hclose : Close (n + 1) q' q) :
    k' ≤ k + (n + 1) := by
  by_contra hlt
  obtain ⟨j, rfl⟩ : ∃ j, k' = j + 1 := ⟨k' - 1, by omega⟩
  have hj : k + (n + 1) ≤ j := by omega
  have hmiddle := h.le_middle
  have hmiddle' := h'.middle_le j rfl
  have hlow : magnitude k * roundoff ^ (n + 1) < magnitude j :=
    (magnitude_mul_roundoff_pow_lt k n).trans_le (magnitude_strictMono.monotone hj)
  have hhigh : magnitude (k + 1) * roundoff ^ (n + 1) < magnitude (j + 1) :=
    (magnitude_mul_roundoff_pow_lt (k + 1) n).trans_le (magnitude_strictMono.monotone (by omega))
  have hpow : 0 < roundoff ^ (n + 1) := pow_pos roundoff_pos _
  have hcontra : 2 * q' < 2 * q' :=
    calc 2 * q' ≤ 2 * q * roundoff ^ (n + 1) := by linarith [hclose.le]
      _ ≤ (magnitude k + magnitude (k + 1)) * roundoff ^ (n + 1) := by gcongr
      _ < magnitude j + magnitude (j + 1) := by linarith
      _ ≤ 2 * q' := hmiddle'
  exact hcontra.false

end Binary64
end Eligibility
