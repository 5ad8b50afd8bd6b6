import Eligibility.Proofs.Number.Order
import Mathlib.Algebra.Order.Field.Basic
import Mathlib.Tactic.GCongr
import Mathlib.Tactic.Linarith
import Mathlib.Tactic.NormNum
import Mathlib.Tactic.Positivity
import Mathlib.Tactic.Ring

/-!
# Rounding intervals

A rank is a nearest one to a quotient if the quotient lies between the middles of the rank and its two
neighbours.  Rounding finds such a rank.  Which of two equally near ranks it finds is left open here,
since no bound on an error depends on it; that the same quotient always rounds to the same rank is
`roundUnits_mul_right`.

**Results.**
* `units_add`: the magnitude of a rounded significand;
* `exists_nearest`: rounding finds a nearest rank, but none beyond infinity;
* `Nearest.le_of_le`, `Nearest.le_of_magnitude_le`: nearest ranks are in the order of the quotients;
* `Nearest.eq_zero`: what is less than half the least magnitude is nearest to zero.
-/

namespace Eligibility
namespace Binary64

/-! ## From one magnitude to the next -/

/-- Significands have at most 53 bits. -/
theorem units_lt_step (k : Nat) : units k < 2 ^ 53 * step k := by
  unfold step
  by_cases hk : k < binade
  · rw [units_of_lt hk, Nat.div_eq_of_lt hk]
    simp only [binade] at hk ⊢
    omega
  · rw [units_of_le (Nat.not_lt.mp hk)]
    exact Nat.mul_lt_mul_of_pos_right (significand_lt k) (Nat.two_pow_pos _)

/-- Significands of normal numbers have 53 bits; those of the larger subnormal numbers lack few. -/
theorem step_le_units
    {n i k : Nat}
    (hn : 1 ≤ n)
    (hi : binade ≤ n * i)
    (hk : i ≤ k) :
    binade * step k ≤ n * units k := by
  unfold step
  by_cases hlt : k < binade
  · rw [units_of_lt hlt, Nat.div_eq_of_lt hlt, Nat.zero_sub, Nat.pow_zero, Nat.mul_one]
    exact hi.trans (Nat.mul_le_mul_left n hk)
  · rw [units_of_le (Nat.not_lt.mp hlt)]
    calc binade * 2 ^ (k / binade - 1)
        ≤ (binade + k % binade) * 2 ^ (k / binade - 1) :=
          Nat.mul_le_mul_right _ (Nat.le_add_right _ _)
      _ ≤ n * ((binade + k % binade) * 2 ^ (k / binade - 1)) := Nat.le_mul_of_pos_left _ hn

/-- The units of a rounded significand, when `shift` bits have been dropped from it. -/
theorem units_add
    {shift m : Nat}
    (hm : m ≤ 2 * binade)
    (hshift : shift = 0 ∨ binade ≤ m) :
    units (shift * binade + m) = m * 2 ^ shift := by
  by_cases hlt : m < binade
  · obtain rfl := hshift.resolve_right (by omega)
    rw [Nat.zero_mul, Nat.zero_add, units_of_lt hlt, Nat.pow_zero, Nat.mul_one]
  · rw [units_of_le (by omega)]
    by_cases hcarry : m = 2 * binade
    · have hpower : (shift * binade + m) / binade - 1 = shift + 1 := by
        simp only [binade] at hcarry ⊢
        omega
      have hmod : (shift * binade + m) % binade = 0 := by
        simp only [binade] at hcarry ⊢
        omega
      rw [hpower, hmod, hcarry, Nat.pow_succ, Nat.add_zero, Nat.mul_comm _ 2, ← Nat.mul_assoc,
        Nat.mul_comm 2]
    · have hpower : (shift * binade + m) / binade - 1 = shift := by
        simp only [binade] at hm hlt hcarry ⊢
        omega
      have hmod : binade + (shift * binade + m) % binade = m := by
        simp only [binade] at hm hlt hcarry ⊢
        omega
      rw [hpower, hmod]

/-! ## Magnitudes -/

/-- The magnitude of a finite rank.  Infinity is given the one that comes next. -/
def magnitude (k : Nat) : ℚ :=
  units k / unitsPerOne

theorem cast_unitsPerOne_pos : (0 : ℚ) < unitsPerOne := by
  exact_mod_cast Decimal.unitsPerOne_pos

theorem magnitude_strictMono : StrictMono magnitude := by
  intro j k hjk
  have hunits : (units j : ℚ) < units k := by exact_mod_cast units_strictMono hjk
  exact div_lt_div_of_pos_right hunits cast_unitsPerOne_pos

@[simp] theorem magnitude_zero : magnitude 0 = 0 := by
  rw [magnitude, units_zero, Nat.cast_zero, zero_div]

theorem magnitude_nonneg (k : Nat) : 0 ≤ magnitude k := by
  simpa using magnitude_strictMono.monotone (Nat.zero_le k)

theorem magnitude_pos
    {k : Nat}
    (hk : 0 < k) :
    0 < magnitude k := by
  simpa using magnitude_strictMono hk

theorem magnitude_succ (k : Nat) : magnitude (k + 1) = magnitude k + step k / unitsPerOne := by
  rw [magnitude, magnitude, units_succ, Nat.cast_add, add_div]

/-! ## Nearest ranks -/

/-- The quotient lies between the middles around the magnitude of the rank. -/
structure Nearest (q : ℚ) (k : Nat) : Prop where
  le_middle : 2 * q ≤ magnitude k + magnitude (k + 1)
  middle_le : ∀ j, k = j + 1 → magnitude j + magnitude k ≤ 2 * q

namespace Nearest

variable {q : ℚ} {j k : Nat}

/-- A nearest rank is not above a rank whose magnitude the quotient does not exceed. -/
theorem le_of_le
    (h : Nearest q k)
    (hq : q ≤ magnitude j) :
    k ≤ j := by
  by_contra hlt
  obtain ⟨i, rfl⟩ : ∃ i, k = i + 1 := ⟨k - 1, by omega⟩
  have hmiddle := h.middle_le i rfl
  have hi : magnitude j ≤ magnitude i := magnitude_strictMono.monotone (by omega)
  have hnext : magnitude i < magnitude (i + 1) := magnitude_strictMono (Nat.lt_succ_self i)
  linarith

theorem le_of_magnitude_le
    (h : Nearest q k)
    (hq : magnitude j ≤ q) :
    j ≤ k := by
  by_contra hlt
  have hmiddle := h.le_middle
  have hj : magnitude (k + 1) ≤ magnitude j := magnitude_strictMono.monotone (by omega)
  have hnext : magnitude k < magnitude (k + 1) := magnitude_strictMono (Nat.lt_succ_self k)
  linarith

/-- What is less than half the least magnitude is nearest to zero. -/
theorem eq_zero
    (h : Nearest q k)
    (hq : 2 * q < magnitude 1) :
    k = 0 := by
  by_contra hk
  obtain ⟨i, rfl⟩ : ∃ i, k = i + 1 := ⟨k - 1, by omega⟩
  have hmiddle := h.middle_le i rfl
  have hone : magnitude 1 ≤ magnitude (i + 1) := magnitude_strictMono.monotone (by omega)
  linarith [magnitude_nonneg i]

theorem zero
    (hq : 2 * q ≤ magnitude 1) :
    Nearest q 0 where
  le_middle := by simpa using hq
  middle_le := by simp

/-- Nearest ranks of a quotient that is counted in units of `2 ^ -1074`. -/
theorem of_units
    {num den : Nat}
    (hden : 0 < den)
    (hle : 2 * num ≤ (units k + units (k + 1)) * den)
    (hge : ∀ j, k = j + 1 → (units j + units k) * den ≤ 2 * num) :
    Nearest (num / den / unitsPerOne) k := by
  have hden' : (0 : ℚ) < den := by exact_mod_cast hden
  have htwice : 2 * ((num : ℚ) / den / unitsPerOne) = 2 * num / den / unitsPerOne := by
    rw [mul_div_assoc', mul_div_assoc']
  constructor
  · have hle' : (2 : ℚ) * num ≤ (units k + units (k + 1)) * den := by exact_mod_cast hle
    rw [htwice, magnitude, magnitude, ← add_div]
    exact div_le_div_of_nonneg_right ((div_le_iff₀ hden').mpr hle') cast_unitsPerOne_pos.le
  · intro j hj
    have hge' : ((units j : ℚ) + units k) * den ≤ 2 * num := by exact_mod_cast hge j hj
    rw [htwice, magnitude, magnitude, ← add_div]
    exact div_le_div_of_nonneg_right ((le_div_iff₀ hden').mpr hge') cast_unitsPerOne_pos.le

end Nearest

/-! ## Rounding -/

section DivHalfEven

variable (num : Nat) {den : Nat}

theorem le_divHalfEven (hden : 0 < den) : 2 * num ≤ (2 * divHalfEven num den + 1) * den := by
  have hsplit := Nat.div_add_mod num den
  have hmod := Nat.mod_lt num hden
  rw [divHalfEven]
  generalize num / den = low at hsplit ⊢
  generalize num % den = rest at hsplit hmod ⊢
  split_ifs with hbelow habove
  · linarith
  · linarith
  · linarith [Nat.zero_le (low % 2 * den)]

theorem divHalfEven_le (hden : 0 < den) : 2 * divHalfEven num den * den ≤ 2 * num + den := by
  have hsplit := Nat.div_add_mod num den
  rw [divHalfEven]
  generalize num / den = low at hsplit ⊢
  generalize num % den = rest at hsplit ⊢
  split_ifs with hbelow habove
  · linarith
  · linarith
  · have heven : low % 2 * den ≤ 1 * den := Nat.mul_le_mul_right _ (by omega)
    linarith

theorem divHalfEven_mul_right
    {c : Nat}
    (hc : 0 < c) :
    divHalfEven (num * c) (den * c) = divHalfEven num den := by
  have hcompare : 2 * (num % den * c) < den * c ↔ 2 * (num % den) < den := by
    rw [← Nat.mul_assoc]
    exact Nat.mul_lt_mul_right hc
  have hcompare' : den * c < 2 * (num % den * c) ↔ den < 2 * (num % den) := by
    rw [← Nat.mul_assoc]
    exact Nat.mul_lt_mul_right hc
  rw [divHalfEven, divHalfEven, Nat.mul_mod_mul_right, Nat.mul_div_mul_right _ _ hc]
  simp only [hcompare, hcompare']

end DivHalfEven

/-- Rounding depends on the quotient alone. -/
theorem roundUnits_mul_right
    (num den : Nat) {c : Nat}
    (hc : 0 < c) :
    roundUnits (num * c) (den * c) = roundUnits num den := by
  simp only [roundUnits, Nat.mul_div_mul_right _ _ hc, Nat.mul_right_comm den c,
    divHalfEven_mul_right _ hc]

theorem roundUnits_zero (den : Nat) : roundUnits 0 den = 0 := by
  simp [roundUnits, divHalfEven]

/-- A quotient leaves a significand of 53 bits when `shift` bits are dropped from it, or one of fewer
bits when none are. -/
structure Drops (num den shift : Nat) : Prop where
  lt : num < 2 * binade * (den * 2 ^ shift)
  le : shift = 0 ∨ binade * (den * 2 ^ shift) ≤ num

theorem drops_log2
    (num : Nat) {den : Nat}
    (hden : 0 < den) :
    Drops num den ((num / den).log2 - 52) where
  lt := by
    have hquotient : num / den < 2 ^ (53 + ((num / den).log2 - 52)) :=
      Nat.lt_log2_self.trans_le (Nat.pow_le_pow_right (by decide) (by omega))
    rw [Nat.pow_add, show 2 ^ 53 = 2 * binade by decide, Nat.div_lt_iff_lt_mul hden] at hquotient
    rwa [Nat.mul_comm den, ← Nat.mul_assoc]
  le := by
    by_cases hshift : (num / den).log2 - 52 = 0
    · exact .inl hshift
    · right
      have hquotient : 2 ^ (52 + ((num / den).log2 - 52)) ≤ num / den := by
        rw [← Nat.le_log2]
        · omega
        · intro hzero
          simp [hzero] at hshift
      rw [Nat.pow_add, ← binade_eq, Nat.le_div_iff_mul_le hden] at hquotient
      rwa [Nat.mul_comm den, ← Nat.mul_assoc]

/-- The rank of a significand that is rounded after `shift` bits have been dropped. -/
def droppedRank (num den shift : Nat) : Nat :=
  shift * binade + divHalfEven num (den * 2 ^ shift)

namespace Drops

variable {num den shift : Nat}

theorem significand_le
    (h : Drops num den shift)
    (hden : 0 < den * 2 ^ shift) :
    divHalfEven num (den * 2 ^ shift) ≤ 2 * binade := by
  have hlt := h.lt
  have hle := divHalfEven_le num hden
  generalize den * 2 ^ shift = scaled at *
  generalize divHalfEven num scaled = m at *
  by_contra hm
  have hmul : (2 * binade + 1) * scaled ≤ m * scaled := Nat.mul_le_mul_right _ (by omega)
  linarith

theorem le_significand
    (h : Drops num den shift)
    (hden : 0 < den * 2 ^ shift) :
    shift = 0 ∨ binade ≤ divHalfEven num (den * 2 ^ shift) := by
  refine h.le.imp_right fun hle => ?_
  have hge := le_divHalfEven num hden
  generalize den * 2 ^ shift = scaled at *
  generalize divHalfEven num scaled = m at *
  by_contra hm
  have hmul : (m + 1) * scaled ≤ binade * scaled := Nat.mul_le_mul_right _ (by omega)
  linarith

theorem units_droppedRank
    (h : Drops num den shift)
    (hden : 0 < den * 2 ^ shift) :
    units (droppedRank num den shift) = divHalfEven num (den * 2 ^ shift) * 2 ^ shift :=
  units_add (h.significand_le hden) (h.le_significand hden)

theorem le_middle
    (h : Drops num den shift)
    (hden : 0 < den * 2 ^ shift) :
    2 * num ≤
      (units (droppedRank num den shift) + units (droppedRank num den shift + 1)) * den := by
  have habove := le_divHalfEven num hden
  have hm := h.le_significand hden
  rw [units_succ, h.units_droppedRank hden, droppedRank]
  generalize divHalfEven num (den * 2 ^ shift) = m at *
  have hstep : 2 ^ shift ≤ step (shift * binade + m) := by
    apply Nat.pow_le_pow_right (by decide)
    simp only [binade] at hm ⊢
    omega
  calc 2 * num ≤ (2 * m + 1) * (den * 2 ^ shift) := habove
    _ = (m * 2 ^ shift + (m * 2 ^ shift + 2 ^ shift)) * den := by ring
    _ ≤ (m * 2 ^ shift + (m * 2 ^ shift + step (shift * binade + m))) * den := by gcongr

theorem middle_le
    (h : Drops num den shift)
    (hden : 0 < den * 2 ^ shift)
    {j : Nat}
    (hj : droppedRank num den shift = j + 1) :
    (units j + units (droppedRank num den shift)) * den ≤ 2 * num := by
  have hbelow := divHalfEven_le num hden
  have hm_le := h.significand_le hden
  have hm_ge := h.le_significand hden
  have hunits := h.units_droppedRank hden
  have hj_le : units j ≤ units (droppedRank num den shift) := by
    rw [hj]
    exact (units_lt_succ j).le
  rw [hunits] at hj_le ⊢
  rw [droppedRank] at hj
  generalize divHalfEven num (den * 2 ^ shift) = m at *
  by_cases hfirst : shift ≠ 0 ∧ m = binade
  · -- The rank before a power of two is nearer than those after it.
    calc (units j + m * 2 ^ shift) * den ≤ (m * 2 ^ shift + m * 2 ^ shift) * den := by gcongr
      _ = 2 * (binade * (den * 2 ^ shift)) := by
        rw [hfirst.2]
        ring
      _ ≤ 2 * num := Nat.mul_le_mul_left 2 (h.le.resolve_left hfirst.1)
  · obtain ⟨i, rfl⟩ : ∃ i, m = i + 1 := by
      refine ⟨m - 1, ?_⟩
      rcases hm_ge with hzero | hm_ge
      · rw [hzero] at hj
        omega
      · simp only [binade] at hm_ge
        omega
    obtain rfl : j = shift * binade + i := by omega
    rw [units_add (by omega) (by omega)]
    have hmul : 2 * (i + 1) * (den * 2 ^ shift) =
        (i * 2 ^ shift + (i + 1) * 2 ^ shift) * den + den * 2 ^ shift := by ring
    omega

end Drops

/-- Rounding finds a nearest rank, but none beyond infinity. -/
theorem exists_nearest
    (num : Nat) {den : Nat}
    (hden : 0 < den) :
    ∃ k, roundUnits num den = min infinityRank k ∧ Nearest (num / den / unitsPerOne) k := by
  have hdrops := drops_log2 num hden
  have hscaled : 0 < den * 2 ^ ((num / den).log2 - 52) := Nat.mul_pos hden (Nat.two_pow_pos _)
  exact ⟨droppedRank num den ((num / den).log2 - 52), rfl,
    .of_units hden (hdrops.le_middle hscaled) fun _ hj => hdrops.middle_le hscaled hj⟩

theorem exists_nearest_roundRatio
    (num : Nat) {den : Nat}
    (hden : 0 < den) :
    ∃ k, roundRatio num den = min infinityRank k ∧ Nearest (num / den) k := by
  obtain ⟨k, hk, hnearest⟩ := exists_nearest (num * unitsPerOne) hden
  refine ⟨k, hk, ?_⟩
  rwa [Nat.cast_mul, div_right_comm, mul_div_cancel_right₀ _ cast_unitsPerOne_pos.ne'] at hnearest

theorem exists_nearest_mulRank (a b : Nat) :
    ∃ k, mulRank a b = min infinityRank k ∧ Nearest (magnitude a * magnitude b) k := by
  obtain ⟨k, hk, hnearest⟩ := exists_nearest (units a * units b) Decimal.unitsPerOne_pos
  refine ⟨k, hk, ?_⟩
  rwa [Nat.cast_mul, div_div, ← div_mul_div_comm] at hnearest

theorem exists_nearest_divRank
    (a : Nat) {b : Nat}
    (hb : 0 < b) :
    ∃ k, divRank a b = min infinityRank k ∧ Nearest (magnitude a / magnitude b) k := by
  obtain ⟨k, hk, hnearest⟩ := exists_nearest_roundRatio (units a) (units_pos hb)
  refine ⟨k, hk, ?_⟩
  rwa [magnitude, magnitude, div_div_div_cancel_right₀ cast_unitsPerOne_pos.ne']

/-- The nearest rank to a quotient that is not beyond all finite magnitudes is finite. -/
theorem nearest_of_le
    {q : ℚ} {r : Nat}
    (h : ∃ k, r = min infinityRank k ∧ Nearest q k)
    (hq : q ≤ magnitude (infinityRank - 1)) :
    r < infinityRank ∧ Nearest q r := by
  obtain ⟨k, rfl, hk⟩ := h
  have hlast : infinityRank - 1 < infinityRank := by decide
  have hlt : k < infinityRank := (hk.le_of_le hq).trans_lt hlast
  rw [Nat.min_eq_right hlt.le]
  exact ⟨hlt, hk⟩

end Binary64
end Eligibility
