import Eligibility.Proofs.Json.Significand

/-!
# Scaling

The reader of documents rounds the digits that it keeps and scales the result by powers of ten, which
are rounded themselves; it rounds after every step.  Here its result is compared with the nearest
number to the decimal that the numeral spells.

**Results.**
* `exists_nearest_scale`: the error of the last step;
* `scale_near`: a numeral is read at most five ranks beside the nearest number;
* `scale_short`: a numeral with few digits and a small exponent is read as the nearest number.
-/

namespace Eligibility
namespace Json
namespace Numeral

open Binary64

/-! ## Significands and powers of ten -/

theorem ten_pow_le
    {p : Nat}
    (hp : p ≤ 308) :
    (10 : ℚ) ^ p ≤ magnitude (infinityRank - 1) := by
  have hlast : 10 ^ 308 * unitsPerOne ≤ units (infinityRank - 1) := by decide +kernel
  calc (10 : ℚ) ^ p ≤ 10 ^ 308 := pow_le_pow_right₀ (by norm_num) hp
    _ ≤ magnitude (infinityRank - 1) := by
        rw [magnitude, le_div_iff₀ cast_unitsPerOne_pos]
        exact_mod_cast hlast

theorem nearest_powerRank
    {p : Nat}
    (hp : p ≤ 308) :
    Nearest (10 ^ p) (powerRank p) := by
  have hexists := Decimal.exists_nearest_rank ⟨1, p⟩
  rw [show Decimal.value ⟨1, p⟩ = 10 ^ p by simp [Decimal.value]] at hexists
  exact (nearest_of_le hexists (ten_pow_le hp)).2

theorem magnitude_binade_le_one : magnitude binade ≤ 1 := by
  rw [magnitude_binade]
  exact zpow_le_one_of_nonpos₀ (by norm_num) (by norm_num)

theorem close_powerRank
    {p : Nat}
    (hp : p ≤ 308) :
    Close 1 (magnitude (powerRank p)) (10 ^ p) := by
  refine (nearest_powerRank hp).close le_rfl (by rw [Nat.one_mul]) ?_
  exact magnitude_binade_le_one.trans (one_le_pow₀ (by norm_num))

theorem powerRank_pos
    {p : Nat}
    (hp : p ≤ 308) :
    0 < powerRank p := by
  by_contra hzero
  have hpos := (close_powerRank hp).left_pos
  simp [Nat.eq_zero_of_not_pos hzero] at hpos

theorem nearest_roundRatio
    {m : Nat}
    (hm : m < 2 ^ 64) :
    roundRatio m 1 < infinityRank ∧ Nearest m (roundRatio m 1) := by
  have hexists := exists_nearest_roundRatio m Nat.one_pos
  rw [Nat.cast_one, div_one] at hexists
  have hm' : (m : ℚ) ≤ 10 ^ 20 := by exact_mod_cast hm.le.trans (by decide)
  exact nearest_of_le hexists (hm'.trans (ten_pow_le (by decide)))

theorem magnitude_roundRatio_le
    {m : Nat}
    (hm : m < 2 ^ 64) :
    magnitude (roundRatio m 1) ≤ 2 ^ (64 : ℤ) := by
  have hpower : (2 : ℚ) ^ (64 : ℤ) = magnitude (1086 * binade + binade) := (magnitude_power 1086).symm
  have hm' : (m : ℚ) ≤ magnitude (1086 * binade + binade) := by
    rw [← hpower, zpow_ofNat]
    exact_mod_cast hm.le
  rw [hpower]
  exact magnitude_strictMono.monotone ((nearest_roundRatio hm).2.le_of_le hm')

theorem close_roundRatio
    {m : Nat}
    (hpos : 0 < m)
    (hm : m < 2 ^ 64) :
    Close 1 (magnitude (roundRatio m 1)) m := by
  have hone : (1 : ℚ) ≤ m := by exact_mod_cast hpos
  exact (nearest_roundRatio hm).2.close le_rfl (by rw [Nat.one_mul])
    (magnitude_binade_le_one.trans hone)

/-- Significands of 53 bits are not rounded. -/
theorem units_roundRatio
    {m : Nat}
    (hm : m < 2 ^ 53) :
    units (roundRatio m 1) = m * unitsPerOne := by
  rcases Nat.eq_zero_or_pos m with rfl | hpos
  · rw [roundRatio, Nat.zero_mul, roundUnits_zero, units_zero]
  · obtain ⟨k, -, hk, hunits⟩ := exists_units_eq hpos hm (Nat.zero_le 900)
    have hround := roundUnits_units hk Nat.one_pos
    rw [Nat.pow_zero, Nat.mul_one] at hunits
    rw [Nat.mul_one, hunits] at hround
    rw [roundRatio, hround, hunits]

theorem magnitude_roundRatio
    {m : Nat}
    (hm : m < 2 ^ 53) :
    magnitude (roundRatio m 1) = m := by
  rw [magnitude, units_roundRatio hm, Nat.cast_mul, mul_div_cancel_right₀ _ cast_unitsPerOne_pos.ne']

/-- Small powers of ten are not rounded. -/
theorem units_powerRank
    {p : Nat}
    (hp : p ≤ 22) :
    units (powerRank p) = 10 ^ p * unitsPerOne := by
  have hfive : 5 ^ p < 2 ^ 53 := (Nat.pow_le_pow_right (by decide) hp).trans_lt (by decide)
  obtain ⟨k, hpos, hk, hunits⟩ := exists_units_eq (Nat.pow_pos (by decide)) hfive
    (show p ≤ 900 by omega)
  rw [← Nat.mul_pow] at hunits
  have hrank : powerRank p = k := Decimal.rank_of_whole (by rw [Nat.one_mul, hunits]) hpos hk
  rw [hrank, hunits]

/-! ## Scaling -/

theorem mulRank_zero (b : Nat) : mulRank 0 b = 0 := by
  rw [mulRank, units_zero, Nat.zero_mul, roundUnits_zero]

theorem divRank_zero (b : Nat) : divRank 0 b = 0 := by
  rw [divRank, units_zero, roundRatio, Nat.zero_mul, roundUnits_zero]

section Scale

variable {a : Nat}

theorem scale_whole
    {p : Nat}
    (hp : p ≤ 308) :
    scale a p = if mulRank a (powerRank p) < infinityRank then some (mulRank a (powerRank p))
      else none := by
  rw [scale, if_neg (by omega), if_pos (by omega), Int.toNat_natCast]

theorem scale_part
    {p : Nat}
    (hpos : 0 < p)
    (hp : p ≤ 308) :
    scale a (-p) = some (divRank a (powerRank p)) := by
  rw [scale, if_neg (by omega), if_neg (by omega), if_pos (by omega), Int.neg_neg, Int.toNat_natCast]

theorem scale_zero (e : ℤ) : scale 0 e = some 0 := by
  by_cases hlarge : 308 < e
  · rw [scale, if_pos hlarge, if_pos rfl]
  by_cases hwhole : 0 ≤ e
  · obtain ⟨p, rfl⟩ := Int.eq_ofNat_of_zero_le hwhole
    rw [scale_whole (by omega), mulRank_zero, if_pos (by decide)]
  by_cases hpart : -308 ≤ e
  · obtain ⟨p, hp⟩ := Int.eq_ofNat_of_zero_le (show 0 ≤ -e by omega)
    obtain rfl : e = -(p : ℤ) := by omega
    rw [scale_part (by omega) (by omega), divRank_zero]
  · rw [scale, if_neg hlarge, if_neg hwhole, if_neg hpart, if_pos rfl]

theorem scale_small
    {e : ℤ}
    (he : e < -308) :
    scale a e = scale (divRank a (powerRank 308)) (e + 308) := by
  by_cases ha : a = 0
  · rw [ha, scale_zero, divRank_zero, scale_zero]
  · rw [scale, if_neg (by omega), if_neg (by omega), if_neg (by omega), if_neg ha]

theorem scale_large
    {e : ℤ}
    (he : 308 < e)
    (ha : a ≠ 0) :
    scale a e = none := by
  rw [scale, if_pos he, if_neg ha]

end Scale

section Step

variable {a k n : Nat} {x : ℚ} {e : ℤ}

theorem ne_zero_of_close (h : Close n (magnitude a) x) : a ≠ 0 := by
  rintro rfl
  have hpos := h.left_pos
  simp at hpos

/-- A quotient by a power of ten is not larger than the number that is divided. -/
theorem nearest_divRank
    {p : Nat}
    (ha : a < infinityRank)
    (hpos : 0 < p)
    (hp : p ≤ 308) :
    divRank a (powerRank p) < infinityRank ∧
      Nearest (magnitude a / magnitude (powerRank p)) (divRank a (powerRank p)) := by
  apply nearest_of_le (exists_nearest_divRank a (powerRank_pos hp))
  have hpower : 1 ≤ magnitude (powerRank p) := by
    have hten : (10 : ℚ) ^ 1 ≤ 10 ^ p := pow_le_pow_right₀ (by norm_num) hpos
    have hclose := (close_powerRank hp).ge
    rw [pow_one, roundoff] at hclose
    linarith
  calc magnitude a / magnitude (powerRank p) ≤ magnitude a := div_le_self (magnitude_nonneg a) hpower
    _ ≤ magnitude (infinityRank - 1) := magnitude_strictMono.monotone (Nat.le_sub_one_of_lt ha)

/-- The last step of scaling rounds a quotient that has one more error, that of the power of ten. -/
theorem exists_nearest_scale
    (ha : a < infinityRank)
    (hclose : Close n (magnitude a) x)
    (he : -308 ≤ e)
    (h : scale a e = some k) :
    k < infinityRank ∧ ∃ q, Nearest q k ∧ Close (n + 1) q (x * 10 ^ e) := by
  by_cases hlarge : 308 < e
  · simp [scale_large hlarge (ne_zero_of_close hclose)] at h
  by_cases hwhole : 0 ≤ e
  · obtain ⟨p, rfl⟩ := Int.eq_ofNat_of_zero_le hwhole
    rw [scale_whole (by omega)] at h
    obtain ⟨hfinite, hscaled⟩ := Option.ite_none_right_eq_some.mp h
    obtain rfl := Option.some.inj hscaled
    obtain ⟨k, hk, hnearest⟩ := exists_nearest_mulRank a (powerRank p)
    have hmin : mulRank a (powerRank p) = k := by omega
    rw [zpow_natCast]
    exact ⟨hfinite, _, hmin ▸ hnearest, hclose.mul (close_powerRank (by omega))⟩
  · obtain ⟨p, hp⟩ := Int.eq_ofNat_of_zero_le (show 0 ≤ -e by omega)
    obtain rfl : e = -(p : ℤ) := by omega
    rw [scale_part (by omega) (by omega)] at h
    obtain rfl := Option.some.inj h
    obtain ⟨hfinite, hnearest⟩ := nearest_divRank ha (show 0 < p by omega) (by omega)
    rw [zpow_neg, zpow_natCast, ← div_eq_mul_inv]
    exact ⟨hfinite, _, hnearest, hclose.div (close_powerRank (by omega))⟩

/-- Scaling in two steps divides by the largest power of ten first. -/
theorem exists_nearest_scale_small
    {b i : Nat}
    (ha : a < infinityRank)
    (hclose : Close n (magnitude a) x)
    (hb : 1 ≤ b)
    (hi : binade ≤ b * i)
    (hq : magnitude i * magnitude (powerRank 308) ≤ magnitude a)
    (hlow : -616 ≤ e)
    (he : e < -308)
    (h : scale a e = some k) :
    k < infinityRank ∧ ∃ q, Nearest q k ∧ Close (b + (n + 1) + 1) q (x * 10 ^ e) := by
  obtain ⟨hfinite, hnearest⟩ := nearest_divRank ha (show 0 < 308 by decide) le_rfl
  have hpower := close_powerRank (le_refl 308)
  have hfirst := (hnearest.close hb hi ((le_div_iff₀ hpower.left_pos).mpr hq)).trans
    (hclose.div hpower)
  rw [scale_small he] at h
  obtain ⟨hk, q, hlast, herror⟩ := exists_nearest_scale hfinite hfirst (by omega) h
  refine ⟨hk, q, hlast, ?_⟩
  have hten := ten_zpow_add e 308
  rw [Nat.cast_ofNat] at hten
  rwa [hten, div_mul_eq_mul_div, ← mul_assoc, mul_div_cancel_right₀ _ (by positivity)] at herror

theorem two_pow_le_powerRank : (2 : ℚ) ^ (924 : ℤ) ≤ magnitude (powerRank 308) := by
  have hten := Decimal.two_zpow_le_ten_zpow (show (0 : ℤ) ≤ (308 : Nat) by decide)
  rw [zpow_natCast] at hten
  have hrank : 1946 * binade + binade ≤ powerRank 308 := by
    apply (nearest_powerRank le_rfl).le_of_magnitude_le
    rw [magnitude_power]
    exact hten
  calc (2 : ℚ) ^ (924 : ℤ) = magnitude (1946 * binade + binade) := (magnitude_power 1946).symm
    _ ≤ magnitude (powerRank 308) := magnitude_strictMono.monotone hrank

theorem div_powerRank_le
    {t : ℤ}
    (h : magnitude a ≤ 2 ^ t) :
    magnitude a / magnitude (powerRank 308) ≤ 2 ^ (t - 924) := by
  rw [zpow_sub₀ two_ne_zero]
  exact div_le_div₀ (zpow_pos two_pos t).le h (zpow_pos two_pos 924) two_pow_le_powerRank

theorem magnitude_divRank_le
    {t : Nat}
    (ha : a < infinityRank)
    (h : magnitude a ≤ 2 ^ ((t : ℤ) - 98)) :
    magnitude (divRank a (powerRank 308)) ≤ 2 ^ ((t : ℤ) - 1022) := by
  have hquotient := div_powerRank_le h
  rw [show (t : ℤ) - 98 - 924 = t - 1022 by ring, ← magnitude_power] at hquotient
  rw [← magnitude_power]
  exact magnitude_strictMono.monotone
    ((nearest_divRank ha (show 0 < 308 by decide) le_rfl).2.le_of_le hquotient)

/-- Scaling in more than two steps leaves nothing of a significand. -/
theorem scale_tiny
    (ha : a < infinityRank)
    (hle : magnitude a ≤ 2 ^ (64 : ℤ))
    (he : e < -616) :
    scale a e = some 0 := by
  obtain ⟨hfinite, -⟩ := nearest_divRank ha (show 0 < 308 by decide) le_rfl
  obtain ⟨-, hnearest⟩ := nearest_divRank hfinite (show 0 < 308 by decide) le_rfl
  have hquotient := div_powerRank_le (magnitude_divRank_le (t := 162) ha hle)
  have hzero : divRank (divRank a (powerRank 308)) (powerRank 308) = 0 := by
    apply hnearest.eq_zero
    calc 2 * (magnitude (divRank a (powerRank 308)) / magnitude (powerRank 308))
        ≤ 2 ^ (1 : ℤ) * 2 ^ (((162 : Nat) : ℤ) - 1022 - 924) := by
          rw [zpow_one]
          exact mul_le_mul_of_nonneg_left hquotient zero_le_two
      _ = 2 ^ (1 + (((162 : Nat) : ℤ) - 1022 - 924)) := (zpow_add₀ two_ne_zero _ _).symm
      _ < 2 ^ (-1074 : ℤ) := zpow_lt_zpow_right₀ one_lt_two (by norm_num)
      _ = magnitude 1 := magnitude_one.symm
  rw [scale_small (by omega), scale_small (by omega), hzero, scale_zero]

end Step

/-! ## The distance from the nearest number -/

theorem magnitude_mul_le
    {i j c : Nat}
    (h : units i * units j ≤ c * (unitsPerOne * unitsPerOne)) :
    magnitude i * magnitude j ≤ c := by
  have hU := cast_unitsPerOne_pos
  rw [magnitude, magnitude, div_mul_div_comm, div_le_iff₀ (mul_pos hU hU)]
  exact_mod_cast h

/-- The errors of scaling a significand in one or two steps.  The largest one comes with significands
that are not rounded themselves. -/
theorem exists_nearest_significand
    {m k : Nat} {e : ℤ}
    (hpos : 0 < m)
    (hm : m < 2 ^ 64)
    (he : -616 ≤ e)
    (h : scale (roundRatio m 1) e = some k) :
    k < infinityRank ∧ ∃ q c, Nearest q k ∧ Close c q (Decimal.value ⟨m, e⟩) ∧
      (c ≤ 4 ∨ c ≤ 5 ∧ m < 2 ^ 53) := by
  have hfinite := (nearest_roundRatio hm).1
  have hclose := close_roundRatio hpos hm
  by_cases hexact : m < 2 ^ 53
  · have hsame : Close 0 (magnitude (roundRatio m 1)) m := by
      rw [magnitude_roundRatio hexact]
      exact .refl hclose.right_pos
    by_cases hstep : -308 ≤ e
    · obtain ⟨hk, q, hnearest, herror⟩ := exists_nearest_scale hfinite hsame hstep h
      exact ⟨hk, q, _, hnearest, herror, .inl (by decide)⟩
    · -- The first quotient may be subnormal, but none is as small as a third of a normal number.
      have hle : magnitude (binade / 3 + 1) * magnitude (powerRank 308) ≤
          magnitude (roundRatio m 1) := by
        rw [magnitude_roundRatio hexact]
        refine (magnitude_mul_le (c := 1) (by decide +kernel)).trans ?_
        exact_mod_cast hpos
      obtain ⟨hk, q, hnearest, herror⟩ := exists_nearest_scale_small hfinite hsame
        (show 1 ≤ 3 by decide) (by decide) hle he (by omega) h
      exact ⟨hk, q, _, hnearest, herror, .inr ⟨by decide, hexact⟩⟩
  · by_cases hstep : -308 ≤ e
    · obtain ⟨hk, q, hnearest, herror⟩ := exists_nearest_scale hfinite hclose hstep h
      exact ⟨hk, q, _, hnearest, herror, .inl (by decide)⟩
    · have hle : magnitude binade * magnitude (powerRank 308) ≤ magnitude (roundRatio m 1) := by
        refine (magnitude_mul_le (c := 4) (by decide +kernel)).trans ?_
        have hlarge : (2 : ℚ) ^ 53 ≤ m := by exact_mod_cast Nat.not_lt.mp hexact
        have hround := hclose.ge
        rw [pow_one, roundoff] at hround
        push_cast
        linarith
      obtain ⟨hk, q, hnearest, herror⟩ := exists_nearest_scale_small hfinite hclose
        (le_refl 1) (by decide) hle he (by omega) h
      exact ⟨hk, q, _, hnearest, herror, .inl (by decide)⟩

/-- Decimals that are too small for two steps are nearest to zero. -/
theorem two_mul_value_lt
    {n : Numeral}
    (he : n.kept.exponent < -616) :
    2 * n.decimal.value < magnitude 1 := by
  obtain ⟨hm, hvalue⟩ := n.kept_value
  have hdigits : (n.kept.digits : ℚ) ≤ 2 ^ (64 : ℤ) := by
    rw [zpow_ofNat]
    exact_mod_cast hm.le
  have hkept : n.kept.value ≤ 2 ^ (64 + 3 * n.kept.exponent) := by
    rw [zpow_add₀ two_ne_zero]
    exact mul_le_mul hdigits (Decimal.ten_zpow_le_two_zpow (by omega))
      (zpow_pos (by norm_num) _).le (zpow_pos two_pos 64).le
  have hdecimal : n.decimal.value ≤ n.kept.value * 2 := by
    rcases hvalue with hsame | ⟨-, hclose⟩
    · rw [← hsame]
      linarith [n.kept.value_nonneg]
    · refine hclose.ge.trans (mul_le_mul_of_nonneg_left ?_ n.kept.value_nonneg)
      norm_num [roundoff]
  calc 2 * n.decimal.value ≤ 2 ^ (2 : ℤ) * 2 ^ (64 + 3 * n.kept.exponent) := by
        rw [zpow_ofNat]
        linarith
    _ = 2 ^ (2 + (64 + 3 * n.kept.exponent)) := (zpow_add₀ two_ne_zero _ _).symm
    _ < 2 ^ (-1074 : ℤ) := zpow_lt_zpow_right₀ one_lt_two (by omega)
    _ = magnitude 1 := magnitude_one.symm

/-- What scaling gives is at most five ranks beside the nearest number. -/
theorem scale_near
    {n : Numeral} {k : Nat}
    (h : scale (roundRatio n.parts.1 1) n.parts.2 = some k) :
    k < infinityRank ∧ k ≤ n.decimal.rank + 5 ∧ n.decimal.rank ≤ k + 5 := by
  obtain ⟨r, hrank, hnearest⟩ := n.decimal.exists_nearest_rank
  obtain ⟨hm, hvalue⟩ := n.kept_value
  -- A numeral that comes out as zero is nearest to zero.
  have hzero (hk : k = 0) (hsmall : 2 * n.decimal.value < magnitude 1) :
      k < infinityRank ∧ k ≤ n.decimal.rank + 5 ∧ n.decimal.rank ≤ k + 5 := by
    rw [hrank, hnearest.eq_zero hsmall, hk, Nat.min_zero]
    decide
  by_cases hpos : 0 < n.kept.digits
  · by_cases he : -616 ≤ n.kept.exponent
    · obtain ⟨hk, q, c, hq, hclose, hc⟩ := exists_nearest_significand hpos hm he h
      have herror : Close (4 + 1) q n.decimal.value := by
        rcases hvalue with hsame | ⟨hlarge, hdropped⟩
        · rw [← hsame]
          exact hclose.mono (by omega)
        · exact (hclose.trans hdropped).mono (by omega)
      have hle := hq.le_add_of_close hnearest herror.symm
      have hge := hnearest.le_add_of_close hq herror
      omega
    · have hsmall : n.kept.exponent < -616 := by omega
      have htiny := scale_tiny (nearest_roundRatio hm).1 (magnitude_roundRatio_le hm) hsmall
      exact hzero (Option.some.inj (h.symm.trans htiny)) (two_mul_value_lt hsmall)
  · have hnil : n.kept.digits = 0 := Nat.eq_zero_of_not_pos hpos
    have hround : roundRatio n.parts.1 1 = 0 := by
      rw [show n.parts.1 = 0 from hnil, roundRatio, Nat.zero_mul, roundUnits_zero]
    rw [hround, scale_zero] at h
    refine hzero (Option.some.inj h).symm ?_
    rcases hvalue with hsame | ⟨hlarge, -⟩
    · rw [← hsame, Decimal.value, hnil, Nat.cast_zero, zero_mul, mul_zero]
      exact magnitude_pos Nat.one_pos
    · omega

/-! ## Few digits -/

/-- The digits fit into a significand and the power of ten is exact; or the number is whole and fits
into 64 bits; or it is zero, whatever its exponent. -/
def Short (d : Decimal) : Prop :=
  d.digits < 2 ^ 53 ∧ -22 ≤ d.exponent ∧ d.exponent ≤ 22 ∨ d.digits < 2 ^ 64 ∧ d.exponent = 0 ∨
    d.digits = 0

instance (d : Decimal) : Decidable (Short d) :=
  inferInstanceAs (Decidable (_ ∨ _))

theorem rank_zero (e : ℤ) : Decimal.rank ⟨0, e⟩ = 0 :=
  if_pos rfl

theorem rank_whole
    {digits p : Nat}
    (hp : p ≤ 22) :
    Decimal.rank ⟨digits, p⟩ = roundRatio (digits * 10 ^ p) 1 := by
  by_cases hzero : digits = 0
  · rw [hzero, rank_zero, roundRatio, Nat.zero_mul, Nat.zero_mul, roundUnits_zero]
  · rw [Decimal.rank, if_neg hzero, if_neg (by simp only; omega), if_neg (by simp only; omega),
      if_pos (by simp only; omega)]
    rfl

theorem rank_part
    {digits p : Nat}
    (hpos : 0 < p)
    (hp : p ≤ 22) :
    Decimal.rank ⟨digits, -p⟩ = roundRatio digits (10 ^ p) := by
  by_cases hzero : digits = 0
  · rw [hzero, rank_zero, roundRatio, Nat.zero_mul, roundUnits_zero]
  · rw [Decimal.rank, if_neg hzero, if_neg (by simp only; omega), if_neg (by simp only; omega),
      if_neg (by simp only; omega), Int.neg_neg, Int.toNat_natCast, Nat.pow_eq]

theorem mulRank_short
    {m p : Nat}
    (hm : m < 2 ^ 53)
    (hp : p ≤ 22) :
    mulRank (roundRatio m 1) (powerRank p) = roundRatio (m * 10 ^ p) 1 := by
  have hscaled := roundUnits_mul_right (m * 10 ^ p * unitsPerOne) 1 Decimal.unitsPerOne_pos
  have hproduct : m * unitsPerOne * (10 ^ p * unitsPerOne) =
      m * 10 ^ p * unitsPerOne * unitsPerOne := by ring
  rw [Nat.one_mul] at hscaled
  rw [mulRank, units_roundRatio hm, units_powerRank hp, hproduct, hscaled, roundRatio]

theorem divRank_short
    {m p : Nat}
    (hm : m < 2 ^ 53)
    (hp : p ≤ 22) :
    divRank (roundRatio m 1) (powerRank p) = roundRatio m (10 ^ p) := by
  rw [divRank, units_roundRatio hm, units_powerRank hp, roundRatio, roundRatio,
    roundUnits_mul_right _ _ Decimal.unitsPerOne_pos]

/-- Multiplying by one changes nothing. -/
theorem mulRank_one
    {a : Nat}
    (ha : a < infinityRank) :
    mulRank a (powerRank 0) = a := by
  rw [mulRank, units_powerRank (Nat.zero_le 22), Nat.pow_zero, Nat.one_mul,
    roundUnits_units ha Decimal.unitsPerOne_pos]

theorem Short.rank_lt
    {m : Nat} {e : ℤ}
    (h : Short ⟨m, e⟩) :
    Decimal.rank ⟨m, e⟩ < infinityRank := by
  by_cases hzero : m = 0
  · rw [hzero, rank_zero]
    decide
  simp only [Short] at h
  have hm : (m : ℚ) ≤ 10 ^ 20 := by
    have hle : m ≤ 10 ^ 20 := by omega
    exact_mod_cast hle
  have hten : (10 : ℚ) ^ e ≤ 10 ^ (22 : ℤ) := zpow_le_zpow_right₀ (by norm_num) (by omega)
  refine (nearest_of_le (Decimal.exists_nearest_rank ⟨m, e⟩) ?_).1
  calc Decimal.value ⟨m, e⟩ ≤ 10 ^ 20 * 10 ^ (22 : ℤ) := by
        rw [Decimal.value]
        gcongr
    _ = 10 ^ 42 := by norm_num
    _ ≤ magnitude (infinityRank - 1) := ten_pow_le (by decide)

/-- Decimals with few digits and a small exponent are read as the nearest number. -/
theorem Short.scale_eq
    {m : Nat} {e : ℤ}
    (h : Short ⟨m, e⟩) :
    scale (roundRatio m 1) e = some (Decimal.rank ⟨m, e⟩) := by
  have hfinite := h.rank_lt
  by_cases hzero : m = 0
  · rw [hzero, rank_zero, roundRatio, Nat.zero_mul, roundUnits_zero, scale_zero]
  simp only [Short] at h
  by_cases hwhole : 0 ≤ e
  · obtain ⟨p, rfl⟩ := Int.eq_ofNat_of_zero_le hwhole
    have hproduct : mulRank (roundRatio m 1) (powerRank p) = Decimal.rank ⟨m, p⟩ := by
      rw [rank_whole (by omega)]
      by_cases hm : m < 2 ^ 53
      · exact mulRank_short hm (by omega)
      · obtain ⟨hm, rfl⟩ : m < 2 ^ 64 ∧ p = 0 := by omega
        rw [mulRank_one (nearest_roundRatio hm).1, Nat.pow_zero, Nat.mul_one]
    rw [scale_whole (by omega), hproduct, if_pos hfinite]
  · obtain ⟨p, hp⟩ := Int.eq_ofNat_of_zero_le (show 0 ≤ -e by omega)
    obtain rfl : e = -(p : ℤ) := by omega
    rw [scale_part (by omega) (by omega), rank_part (by omega) (by omega),
      divRank_short (by omega) (by omega)]

theorem scale_short
    {n : Numeral}
    (h : Short n.decimal) :
    scale (roundRatio n.parts.1 1) n.parts.2 = some n.decimal.rank := by
  have hkept : n.kept = n.decimal := kept_eq (by unfold Short at h; omega)
  rw [← hkept] at h ⊢
  exact h.scale_eq

end Numeral
end Json
end Eligibility
