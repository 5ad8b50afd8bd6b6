import Eligibility.Json.Numeral
import Eligibility.Proofs.Number.DecimalValue

/-!
# The digits that a reader keeps

The reader of documents gathers the digits of a numeral into a significand of 64 bits and drops those
that no longer fit.  A significand from which digits have been dropped has nineteen of them, so that
what is dropped weighs less than one rounding.  Since the reader drops digits of the whole part first
and may still go on with the fraction, the digits kept need not be the first ones of the numeral; but
they and the numeral start with the same nineteen.

**Results.**
* `kept_value`: the digits that are dropped weigh less than one rounding;
* `kept_eq`: digits that fit into 64 bits are all kept.
-/

namespace Eligibility
namespace Json
namespace Numeral

open Binary64

/-! ## Digits after digits -/

/-- Writes digits after those of a number. -/
def followedBy (s : Nat) (digits : List (Fin 10)) : Nat :=
  digits.foldl (fun number digit => number * 10 + digit.val) s

@[simp] theorem followedBy_nil (s : Nat) : followedBy s [] = s := rfl

@[simp] theorem followedBy_cons
    (s : Nat) (digit : Fin 10) (digits : List (Fin 10)) :
    followedBy s (digit :: digits) = followedBy (s * 10 + digit.val) digits := rfl

theorem followedBy_append
    (s : Nat) (digits more : List (Fin 10)) :
    followedBy s (digits ++ more) = followedBy (followedBy s digits) more :=
  List.foldl_append

theorem le_followedBy
    (s : Nat) (digits : List (Fin 10)) :
    s * 10 ^ digits.length ≤ followedBy s digits := by
  induction digits generalizing s with
  | nil => simp
  | cons digit digits ih =>
      have hstep := ih (s * 10 + digit.val)
      have hmul : s * 10 * 10 ^ digits.length ≤ (s * 10 + digit.val) * 10 ^ digits.length :=
        Nat.mul_le_mul_right _ (Nat.le_add_right _ _)
      rw [followedBy_cons, List.length_cons, Nat.pow_succ', ← Nat.mul_assoc]
      exact hmul.trans hstep

theorem self_le_followedBy
    (s : Nat) (digits : List (Fin 10)) :
    s ≤ followedBy s digits :=
  (Nat.le_mul_of_pos_right _ (Nat.pow_pos (by decide))).trans (le_followedBy s digits)

theorem followedBy_lt
    (s : Nat) (digits : List (Fin 10)) :
    followedBy s digits < (s + 1) * 10 ^ digits.length := by
  induction digits generalizing s with
  | nil => simp
  | cons digit digits ih =>
      have hstep := ih (s * 10 + digit.val)
      have hdigit := digit.isLt
      have hmul : (s * 10 + digit.val + 1) * 10 ^ digits.length ≤
          (s + 1) * 10 * 10 ^ digits.length := Nat.mul_le_mul_right _ (by omega)
      rw [followedBy_cons, List.length_cons, Nat.pow_succ', ← Nat.mul_assoc]
      exact hstep.trans_le hmul

/-- The decimal that a numeral spells, with all its digits. -/
def decimal (n : Numeral) : Decimal :=
  ⟨followedBy n.whole n.fraction, n.exponent.getD 0 - n.fraction.length⟩

/-- The decimal that the reader goes on with, of digits that fit into 64 bits. -/
def kept (n : Numeral) : Decimal :=
  ⟨n.parts.1, n.parts.2⟩

/-- A number that digits were dropped from until it fits still has nineteen. -/
theorem fit_eq
    (dropped n : Nat) :
    ∃ j, fit dropped n = (n / 10 ^ j, dropped + j) ∧ n / 10 ^ j < 2 ^ 64 ∧
      (j = 0 ∨ 2 ^ 60 ≤ n / 10 ^ j) := by
  fun_induction fit dropped n with
  | case1 dropped n hlt => exact ⟨0, by simp, by simpa using hlt, .inl rfl⟩
  | case2 dropped n hge ih =>
      obtain ⟨j, hfit, hlt, hlarge⟩ := ih
      rw [Nat.div_div_eq_div_mul, ← Nat.pow_succ'] at hfit hlt hlarge
      refine ⟨j + 1, by rw [hfit]; congr 1; omega, hlt, .inr ?_⟩
      rcases hlarge with rfl | hlarge
      · simp only [UInt64.size] at hge
        omega
      · exact hlarge

/-- A number that no further digit fits behind has nineteen. -/
theorem append_eq
    (appended s : Nat) (digits : List (Fin 10)) (hs : s < 2 ^ 64) :
    ∃ used rest, digits = used ++ rest ∧
      append appended s digits = (followedBy s used, appended + used.length) ∧
      followedBy s used < 2 ^ 64 ∧ (rest = [] ∨ 2 ^ 60 ≤ followedBy s used) := by
  induction digits generalizing appended s with
  | nil => exact ⟨[], [], rfl, rfl, hs, .inl rfl⟩
  | cons digit digits ih =>
      rw [append]
      by_cases hfits : s * 10 + digit.val < UInt64.size
      · obtain ⟨used, rest, rfl, happend, hlt, hrest⟩ :=
          ih (appended + 1) (s * 10 + digit.val) hfits
        refine ⟨digit :: used, rest, rfl, ?_, hlt, hrest⟩
        simp only [hfits, if_true]
        rw [happend, followedBy_cons, List.length_cons]
        congr 1
        omega
      · refine ⟨[], digit :: digits, rfl, ?_, hs, .inr ?_⟩
        · simp only [hfits, if_false]
          rfl
        · have hdigit := digit.isLt
          simp only [UInt64.size] at hfits
          simp only [followedBy_nil]
          omega

theorem ten_zpow_add
    (t : ℤ) (p : Nat) :
    (10 : ℚ) ^ (t + p) = 10 ^ t * 10 ^ p := by
  rw [zpow_add₀ (by norm_num), zpow_natCast]

/-- The number starts with the digits of `s`, the last of which stands for `10 ^ t`. -/
structure StartsWith (s : Nat) (t : ℤ) (x : ℚ) : Prop where
  le : s * 10 ^ t ≤ x
  ge : x ≤ (s + 1) * 10 ^ t

theorem startsWith_followedBy
    (s : Nat) (t : ℤ) (digits : List (Fin 10)) :
    StartsWith s t (Decimal.value ⟨followedBy s digits, t - digits.length⟩) := by
  have hsplit : (10 : ℚ) ^ t = 10 ^ digits.length * 10 ^ (t - digits.length) := by
    rw [mul_comm, ← ten_zpow_add, sub_add_cancel]
  have hle : (s * 10 ^ digits.length : ℚ) ≤ followedBy s digits := by
    exact_mod_cast le_followedBy s digits
  have hge : (followedBy s digits : ℚ) ≤ (s + 1) * 10 ^ digits.length := by
    exact_mod_cast (followedBy_lt s digits).le
  constructor
  · rw [hsplit, ← mul_assoc, Decimal.value]
    gcongr
  · rw [hsplit, ← mul_assoc, Decimal.value]
    gcongr

theorem startsWith_self
    (s : Nat) (t : ℤ) :
    StartsWith s t (Decimal.value ⟨s, t⟩) := by
  simpa using startsWith_followedBy s t []

theorem StartsWith.drop
    {s : Nat} {t : ℤ} {x : ℚ}
    (h : StartsWith s t x)
    (j : Nat) :
    StartsWith (s / 10 ^ j) (t + j) x := by
  have hten : (0 : ℚ) < 10 ^ t := by positivity
  have hsplit : (10 : ℚ) ^ (t + j) = 10 ^ j * 10 ^ t := by
    rw [ten_zpow_add, mul_comm]
  have hle : ((s / 10 ^ j : Nat) : ℚ) * 10 ^ j ≤ s := by
    exact_mod_cast Nat.div_mul_le_self s (10 ^ j)
  have hge : ((s : ℚ) + 1) ≤ ((s / 10 ^ j : Nat) + 1) * 10 ^ j := by
    exact_mod_cast Nat.lt_mul_of_div_lt (Nat.lt_succ_self (s / 10 ^ j)) (Nat.pow_pos (by decide))
  constructor
  · rw [hsplit, ← mul_assoc]
    exact (mul_le_mul_of_nonneg_right hle hten.le).trans h.le
  · rw [hsplit, ← mul_assoc]
    exact h.ge.trans (mul_le_mul_of_nonneg_right hge hten.le)

/-- Numbers that start with the same nineteen digits differ by less than one rounding. -/
theorem StartsWith.close
    {s : Nat} {t : ℤ} {x y : ℚ}
    (hs : 2 ^ 60 ≤ s)
    (hx : StartsWith s t x)
    (hy : StartsWith s t y) :
    Close 1 x y := by
  have hten : (0 : ℚ) < 10 ^ t := by positivity
  have hs' : (2 : ℚ) ^ 60 ≤ s := by exact_mod_cast hs
  have hlow : 0 < s * (10 : ℚ) ^ t := mul_pos (by linarith) hten
  have hgap : ((s : ℚ) + 1) * 10 ^ t ≤ s * 10 ^ t * roundoff ^ 1 := by
    rw [pow_one, mul_right_comm, roundoff]
    gcongr
    linarith
  have hpow : 0 < roundoff ^ 1 := pow_pos roundoff_pos 1
  refine ⟨hlow.trans_le hx.le, hlow.trans_le hy.le, ?_, ?_⟩
  · exact hx.ge.trans (hgap.trans (mul_le_mul_of_nonneg_right hy.le hpow.le))
  · exact hy.ge.trans (hgap.trans (mul_le_mul_of_nonneg_right hx.le hpow.le))

/-- The digits that are dropped weigh less than one rounding. -/
theorem kept_value (n : Numeral) :
    n.kept.digits < 2 ^ 64 ∧
      (n.kept.value = n.decimal.value ∨
        2 ^ 60 ≤ n.kept.digits ∧ Close 1 n.kept.value n.decimal.value) := by
  obtain ⟨j, hfit, hwhole, hj⟩ := fit_eq 0 n.whole
  obtain ⟨used, rest, hfraction, happend, hlt, hrest⟩ :=
    append_eq 0 (n.whole / 10 ^ j) n.fraction hwhole
  have hkept : n.kept = ⟨followedBy (n.whole / 10 ^ j) used,
      n.exponent.getD 0 + j - used.length⟩ := by
    simp only [kept, parts, hfit, happend, Nat.zero_add]
  rcases hj with rfl | hlarge
  · -- The whole part was kept: only digits of the fraction may have been dropped.
    rw [Nat.pow_zero, Nat.div_one, Nat.cast_zero, add_zero] at hkept
    rw [Nat.pow_zero, Nat.div_one] at hrest hlt
    rw [hkept]
    refine ⟨hlt, ?_⟩
    rcases hrest with rfl | hlarge
    · left
      rw [List.append_nil] at hfraction
      simp [decimal, hfraction]
    · refine .inr ⟨hlarge, StartsWith.close hlarge (startsWith_self _ _) ?_⟩
      have hdecimal := startsWith_followedBy (followedBy n.whole used)
        (n.exponent.getD 0 - used.length) rest
      simpa [decimal, hfraction, followedBy_append, sub_sub] using hdecimal
  · -- Digits of the whole part were dropped: both start with those that were left of it.
    rw [hkept]
    refine ⟨hlt, .inr ⟨hlarge.trans (self_le_followedBy _ used), ?_⟩⟩
    refine StartsWith.close hlarge (startsWith_followedBy _ _ used) ?_
    exact (startsWith_followedBy n.whole (n.exponent.getD 0) n.fraction).drop j

theorem append_of_lt
    {appended s : Nat} {digits : List (Fin 10)}
    (h : followedBy s digits < 2 ^ 64) :
    append appended s digits = (followedBy s digits, appended + digits.length) := by
  induction digits generalizing appended s with
  | nil => rfl
  | cons digit digits ih =>
      have hfits : s * 10 + digit.val < UInt64.size := (self_le_followedBy _ digits).trans_lt h
      rw [append, if_pos hfits, ih h, followedBy_cons, List.length_cons]
      congr 1
      omega

/-- Digits that fit into 64 bits are all kept. -/
theorem kept_eq
    {n : Numeral}
    (h : n.decimal.digits < 2 ^ 64) :
    n.kept = n.decimal := by
  have hwhole : n.whole < UInt64.size := (self_le_followedBy n.whole n.fraction).trans_lt h
  have hfit : fit 0 n.whole = (n.whole, 0) := by rw [fit, if_pos hwhole]
  simp [kept, parts, decimal, hfit, append_of_lt h]

end Numeral
end Json
end Eligibility
