import Eligibility.Text.Blank
import Eligibility.Text.Word

/-!
# Classes that exclude each other

White space, word characters, digits and the signs of a rule: which of these classes share no
character, and which lie inside one another.  Past ASCII both white space and word characters are
tables, so their being apart is a check on the ends of the ranges.

**Results.**
* `isBlank_of_isWord`: a word holds no white space;
* `isDigit_of_ascii`: the digits of a number are decimal digits of the rule syntax.
-/

set_option maxRecDepth 10000

namespace Eligibility
namespace Text

/-- Whether each range of the first table lies below or above each range of the second. -/
def apart (first second : List (Nat × Nat)) : Bool :=
  first.all fun r => second.all fun s => Nat.blt r.2 s.1 || Nat.blt s.2 r.1

theorem inRanges_of_apart
    {first second : List (Nat × Nat)} {c : Char}
    (h : apart first second = true)
    (hc : inRanges second c = true) :
    inRanges first c = false := by
  obtain ⟨s, hs, hlo, hhi⟩ := inRanges_iff.1 hc
  rw [← Bool.not_eq_true, inRanges_iff]
  rintro ⟨r, hr, hlo', hhi'⟩
  simp only [apart, List.all_eq_true, Bool.or_eq_true, Nat.blt_eq] at h
  rcases h r hr s hs with hlt | hlt
  · omega
  · omega

theorem blankRanges_apart : apart blankRanges wordRanges = true := by decide +kernel

theorem isBlank_of_isAlphanum
    {c : Char}
    (h : c.isAlphanum = true) :
    isBlank c = false := by
  have hcode : (48 ≤ c.toNat ∧ c.toNat ≤ 57) ∨ (65 ≤ c.toNat ∧ c.toNat ≤ 90) ∨
      (97 ≤ c.toNat ∧ c.toNat ≤ 122) := by
    delta Char.isAlphanum Char.isAlpha Char.isUpper Char.isLower Char.isDigit at h
    simp only [Bool.or_eq_true, Bool.and_eq_true, decide_eq_true_eq] at h
    rcases h with (⟨hlo, hhi⟩ | ⟨hlo, hhi⟩) | ⟨hlo, hhi⟩
    · exact .inr (.inl ⟨hlo, hhi⟩)
    · exact .inr (.inr ⟨hlo, hhi⟩)
    · exact .inl ⟨hlo, hhi⟩
  rw [← Bool.not_eq_true, isBlank_iff]
  rintro ⟨r, hr, hlo, hhi⟩
  simp only [blankRanges, List.mem_cons, List.not_mem_nil, or_false] at hr
  rcases hr with rfl | rfl | rfl | rfl | rfl | rfl | rfl | rfl | rfl | rfl <;>
    simp only at hlo hhi <;> omega

/-- A word holds no white space. -/
theorem isBlank_of_isWord
    {c : Char}
    (h : isWord c = true) :
    isBlank c = false := by
  unfold isWord at h
  split at h
  · rcases Bool.or_eq_true_iff.mp h with h | h
    · exact isBlank_of_isAlphanum h
    · rw [eq_of_beq h]
      decide
  · exact inRanges_of_apart blankRanges_apart h

theorem isWord_eq_false_of_isBlank
    {c : Char}
    (h : isBlank c = true) :
    isWord c = false := by
  cases hword : isWord c with
  | false => rfl
  | true =>
      rw [isBlank_of_isWord hword] at h
      exact h.symm

/-- The digits of a number are decimal digits of the rule syntax. -/
theorem isDigit_of_ascii
    {c : Char}
    (h : c.isDigit = true) :
    isDigit c = true := by
  have hc : c.toNat ≤ 57 := by
    simp only [Char.isDigit, Bool.and_eq_true, decide_eq_true_eq] at h
    exact h.2
  rw [isDigit, if_pos (by omega)]
  exact h

theorem isWord_of_ascii
    {c : Char}
    (h : c.isDigit = true) :
    isWord c = true :=
  isWord_of_isDigit (isDigit_of_ascii h)

theorem isDigit_eq_false_of_isWord
    {c : Char}
    (h : isWord c = false) :
    isDigit c = false := by
  cases hd : isDigit c with
  | false => rfl
  | true =>
      rw [isWord_of_isDigit hd] at h
      exact h

theorem ne_of_isWord
    {c d : Char}
    (hc : isWord c = true)
    (hd : isWord d = false) :
    c ≠ d := by
  rintro rfl
  rw [hc] at hd
  exact absurd hd (by decide)

theorem ne_of_isBlank
    {c d : Char}
    (hc : isBlank c = true)
    (hd : isBlank d = false) :
    c ≠ d := by
  rintro rfl
  rw [hc] at hd
  exact absurd hd (by decide)

theorem ne_of_isDigit
    {c d : Char}
    (hc : c.isDigit = true)
    (hd : d.isDigit = false) :
    c ≠ d := by
  rintro rfl
  rw [hc] at hd
  exact absurd hd (by decide)

end Text
end Eligibility
