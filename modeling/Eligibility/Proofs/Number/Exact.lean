import Eligibility.Number.Decimal
import Mathlib.Algebra.Group.Nat.Defs

/-!
# Decimals that are exact

Rounding leaves alone what needs no rounding: a decimal whose value is that of a finite rank has
that rank.  With it the digits of a number can be checked against its rank without any bound on the
error of a decimal.

**Results.**
* `roundUnits_units`: the units of a finite rank round to that rank, over any denominator;
* `rank_of_units`: a decimal with the value of a finite rank has that rank;
* `rank_exact`, `rank_shortest`: all digits of a number, and its shortest ones, read back as it.
-/

namespace Eligibility
namespace Binary64

theorem divHalfEven_mul
    (q : Nat) {den : Nat}
    (hden : 0 < den) :
    divHalfEven (q * den) den = q := by
  have hmod : q * den % den = 0 := Nat.mul_mod_left q den
  rw [divHalfEven, hmod, if_pos (by omega)]
  exact Nat.mul_div_cancel q hden

theorem units_of_lt
    {k : Nat}
    (h : k < binade) :
    units k = k := if_pos h

theorem units_of_le
    {k : Nat}
    (h : binade ≤ k) :
    units k = (binade + k % binade) * 2 ^ (k / binade - 1) := if_neg (Nat.not_lt.mpr h)

theorem binade_eq : binade = 2 ^ 52 := by decide

theorem units_pos
    {k : Nat}
    (hk : 0 < k) :
    0 < units k := by
  by_cases h : k < binade
  · rw [units_of_lt h]
    exact hk
  · rw [units_of_le (Nat.not_lt.mp h)]
    have hbinade : 0 < binade := by decide
    exact Nat.mul_pos (by omega) (Nat.two_pow_pos _)

/-- The significand of a normal number has 53 bits. -/
theorem significand_lt (k : Nat) : binade + k % binade < 2 ^ 53 := by
  have hmod : k % binade < binade := Nat.mod_lt _ (by decide)
  simp only [binade] at hmod ⊢
  omega

theorem log2_units
    {k : Nat}
    (h : binade ≤ k) :
    (units k).log2 = 52 + (k / binade - 1) := by
  have hpos : units k ≠ 0 := by
    have hk : 0 < k := Nat.lt_of_lt_of_le (by decide) h
    exact Nat.ne_of_gt (units_pos hk)
  rw [Nat.log2_eq_iff hpos, units_of_le h]
  constructor
  · rw [Nat.pow_add, ← binade_eq]
    exact Nat.mul_le_mul_right _ (Nat.le_add_right _ _)
  · rw [show 52 + (k / binade - 1) + 1 = 53 + (k / binade - 1) by omega, Nat.pow_add]
    exact Nat.mul_lt_mul_of_pos_right (significand_lt k) (Nat.two_pow_pos _)

theorem log2_units_lt
    {k : Nat}
    (hk : k < infinityRank) :
    (units k).log2 < 2098 := by
  by_cases h : k < binade
  · rw [units_of_lt h]
    by_cases hzero : k = 0
    · simp [hzero]
    · have := (Nat.log2_lt hzero).mpr (binade_eq ▸ h)
      omega
  · rw [log2_units (Nat.not_lt.mp h)]
    simp only [binade, infinityRank] at hk ⊢
    omega

/-- What is a finite magnitude already is not changed by rounding, over any denominator. -/
theorem roundUnits_units
    {k den : Nat}
    (hk : k < infinityRank)
    (hden : 0 < den) :
    roundUnits (units k * den) den = k := by
  have hdiv : units k * den / den = units k := Nat.mul_div_cancel _ hden
  by_cases h : k < binade
  · have hshift : (units k).log2 - 52 = 0 := by
      rw [units_of_lt h]
      by_cases hzero : k = 0
      · simp [hzero]
      · have := (Nat.log2_lt hzero).mpr (binade_eq ▸ h)
        omega
    simp only [roundUnits, hdiv, hshift, Nat.zero_mul, Nat.zero_add]
    rw [Nat.pow_eq, Nat.pow_zero, Nat.mul_one, divHalfEven_mul _ hden, units_of_lt h]
    exact Nat.min_eq_right (Nat.le_of_lt hk)
  · have hle := Nat.not_lt.mp h
    have hshift : (units k).log2 - 52 = k / binade - 1 := by
      rw [log2_units hle]
      omega
    have hsplit : (binade + k % binade) * 2 ^ (k / binade - 1) * den =
        (binade + k % binade) * (den * 2 ^ (k / binade - 1)) := by
      rw [Nat.mul_assoc, Nat.mul_comm den]
    simp only [roundUnits, hdiv, hshift]
    rw [units_of_le hle, Nat.pow_eq, hsplit,
      divHalfEven_mul _ (Nat.mul_pos hden (Nat.two_pow_pos _))]
    have hrank : (k / binade - 1) * binade + (binade + k % binade) = k := by
      simp only [binade] at hle ⊢
      omega
    rw [hrank]
    exact Nat.min_eq_right (Nat.le_of_lt hk)

end Binary64

namespace Decimal

open Binary64

/-- Whether the decimal is a number of units of `2 ^ -1074`. -/
def HasUnits (d : Decimal) (u : Nat) : Prop :=
  d.digits * 10 ^ d.exponent.toNat * unitsPerOne = u * 10 ^ (-d.exponent).toNat

theorem unitsPerOne_eq : unitsPerOne = 2 ^ 1074 := by
  decide +kernel

theorem unitsPerOne_pos : 0 < unitsPerOne := by
  decide +kernel

theorem two_pow_mul_unitsPerOne (n : Nat) : 2 ^ n * unitsPerOne = 2 ^ (n + 1074) := by
  rw [unitsPerOne_eq, Nat.pow_add]

theorem two_pow_le_ten_pow (n : Nat) : 2 ^ (3 * n) ≤ 10 ^ n := by
  rw [Nat.pow_mul]
  exact Nat.pow_le_pow_left (by decide) n

theorem rank_of_whole
    {digits e k : Nat}
    (h : digits * 10 ^ e * unitsPerOne = units k)
    (hpos : 0 < k)
    (hk : k < infinityRank) :
    rank ⟨digits, e⟩ = k := by
  have hunits := units_pos hpos
  have hdigits : digits ≠ 0 := by
    rintro rfl
    simp only [Nat.zero_mul] at h
    omega
  have hlog : 3 * e + 1074 ≤ (units k).log2 := by
    rw [Nat.le_log2 (by omega), ← h, ← two_pow_mul_unitsPerOne]
    apply Nat.mul_le_mul_right
    calc 2 ^ (3 * e) ≤ 10 ^ e := two_pow_le_ten_pow e
      _ ≤ digits * 10 ^ e := Nat.le_mul_of_pos_left _ (Nat.pos_of_ne_zero hdigits)
  have hbound := log2_units_lt hk
  rw [rank, if_neg hdigits, if_neg (by simp only; omega), if_neg (by simp only; omega),
    if_pos (by simp only; omega), roundRatio]
  simp only [Int.toNat_natCast, Nat.pow_eq]
  rw [h]
  simpa using roundUnits_units hk Nat.one_pos

theorem rank_of_part
    {digits places k : Nat}
    (hplaces : 0 < places)
    (h : digits * unitsPerOne = units k * 10 ^ places)
    (hpos : 0 < k)
    (hk : k < infinityRank) :
    rank ⟨digits, -places⟩ = k := by
  have hunits := units_pos hpos
  have hten : 0 < 10 ^ places := Nat.pow_pos (by decide)
  have hdigits : digits ≠ 0 := by
    rintro rfl
    have := Nat.mul_pos hunits hten
    omega
  have hlog : 3 * places ≤ digits.log2 + 1 + 1074 := by
    apply Nat.le_of_lt
    rw [← Nat.pow_lt_pow_iff_right (a := 2) (by decide), ← two_pow_mul_unitsPerOne]
    calc 2 ^ (3 * places) ≤ 10 ^ places := two_pow_le_ten_pow places
      _ ≤ units k * 10 ^ places := Nat.le_mul_of_pos_left _ hunits
      _ = digits * unitsPerOne := h.symm
      _ < 2 ^ (digits.log2 + 1) * unitsPerOne :=
          Nat.mul_lt_mul_of_pos_right Nat.lt_log2_self unitsPerOne_pos
  rw [rank, if_neg hdigits, if_neg (by simp only; omega), if_neg (by simp only; omega),
    if_neg (by simp only; omega), roundRatio]
  simp only [Int.neg_neg, Int.toNat_natCast, Nat.pow_eq]
  rw [h]
  exact roundUnits_units hk hten

/-- A decimal with the value of a finite rank has that rank. -/
theorem rank_of_units
    {d : Decimal} {k : Nat}
    (h : d.HasUnits (units k))
    (hpos : 0 < k)
    (hk : k < infinityRank) :
    d.rank = k := by
  obtain ⟨digits, exponent⟩ := d
  simp only [HasUnits] at h
  by_cases he : 0 ≤ exponent
  · obtain ⟨e, rfl⟩ := Int.eq_ofNat_of_zero_le he
    exact rank_of_whole (by simpa using h) hpos hk
  · obtain ⟨p, hp⟩ := Int.eq_ofNat_of_zero_le (show 0 ≤ -exponent by omega)
    have hexponent : exponent = -(p : Int) := by omega
    subst hexponent
    exact rank_of_part (by omega) (by simpa using h) hpos hk

theorem hasUnits_trimZeros
    {d : Decimal} {u : Nat}
    (h : d.HasUnits u) :
    (trimZeros d).HasUnits u := by
  fun_induction trimZeros d with
  | case1 d hzero ih =>
      apply ih
      obtain ⟨digits, exponent⟩ := d
      simp only [HasUnits] at h hzero ⊢
      obtain ⟨q, rfl⟩ : ∃ q, digits = 10 * q := ⟨digits / 10, by omega⟩
      rw [Nat.mul_div_cancel_left q (by decide)]
      by_cases he : 0 ≤ exponent
      · rw [show (-exponent).toNat = 0 by omega] at h
        rw [show (-(exponent + 1)).toNat = 0 by omega,
          show (exponent + 1).toNat = exponent.toNat + 1 by omega, Nat.pow_succ, ← h]
        simp only [Nat.mul_assoc, Nat.mul_comm, Nat.mul_left_comm]
      · rw [show exponent.toNat = 0 by omega,
          show (-exponent).toNat = (-(exponent + 1)).toNat + 1 by omega, Nat.pow_succ] at h
        rw [show (exponent + 1).toNat = 0 by omega]
        have hten : 10 * (q * 10 ^ 0 * unitsPerOne) = 10 * (u * 10 ^ (-(exponent + 1)).toNat) := by
          rw [Nat.mul_comm 10 (u * _), Nat.mul_assoc u, ← h]
          simp only [Nat.mul_assoc]
        exact Nat.eq_of_mul_eq_mul_left (by decide) hten
  | case2 d hzero => exact h

theorem hasUnits_of_places
    {n : Nat}
    (hn : unitsPerOne = 2 ^ n)
    (u : Nat) :
    HasUnits ⟨u * 5 ^ n, -n⟩ u := by
  have hten : 5 ^ n * 2 ^ n = 10 ^ n := (Nat.mul_pow 5 2 n).symm
  simp only [HasUnits, Int.neg_neg, Int.toNat_natCast]
  rw [show (-(n : Int)).toNat = 0 by omega, Nat.pow_zero, Nat.mul_one, hn, Nat.mul_assoc, hten]

theorem exact_eq (u : Nat) : exact u = trimZeros ⟨u * 5 ^ 1074, -(1074 : Nat)⟩ := by
  rw [exact, show Nat.pow 5 1074 = 5 ^ 1074 by decide +kernel]
  rfl

theorem hasUnits_exact (u : Nat) : (exact u).HasUnits u := by
  rw [exact_eq]
  exact hasUnits_trimZeros (hasUnits_of_places unitsPerOne_eq u)

theorem rank_exact
    {k : Nat}
    (hpos : 0 < k)
    (hk : k < infinityRank) :
    (exact (units k)).rank = k :=
  rank_of_units (hasUnits_exact _) hpos hk

/-- The shortest digits read back as the number: candidates are tried by reading them, and where
none is left all digits are taken. -/
theorem rank_shortest
    (tie : Tie) {k : Nat}
    (hpos : 0 < k)
    (hk : k < infinityRank) :
    (shortest tie k).rank = k := by
  rw [shortest]
  generalize htried : List.findSome? _ _ = tried
  cases tried with
  | none =>
      rw [Option.getD_none]
      exact rank_exact hpos hk
  | some d =>
      obtain ⟨more, _, hfind⟩ := List.exists_of_findSome?_eq_some htried
      simpa using List.find?_some hfind

/-- Zeros at the end of the digits are as good as a power of ten. -/
theorem rank_mul_ten_pow
    {digits e : Nat}
    (h : rank ⟨digits, e⟩ < infinityRank) :
    rank ⟨digits * 10 ^ e, 0⟩ = rank ⟨digits, e⟩ := by
  by_cases hdigits : digits = 0
  · simp [rank, hdigits]
  · have hten : digits * 10 ^ e ≠ 0 :=
      Nat.mul_ne_zero hdigits (Nat.ne_of_gt (Nat.pow_pos (by decide)))
    have he : ¬ (400 : Int) ≤ e := by
      intro he
      rw [rank, if_neg hdigits, if_pos he] at h
      exact Nat.lt_irrefl _ h
    rw [rank, if_neg hten, if_neg (by simp only; omega), if_neg (by simp only; omega),
      if_pos (by simp only; omega), rank, if_neg hdigits, if_neg he, if_neg (by simp only; omega),
      if_pos (by simp only; omega)]
    simp

end Decimal
end Eligibility
