import Eligibility.Text.Ranges

/-!
# White space

The twenty-five characters with the White_Space property, and removal of white space at the two ends
of a text.

**Results.**
* `isBlank_iff`: the characters, by code point;
* `trim_eq_nil_iff`: a text trims to nothing exactly when it holds white space alone.
-/

namespace Eligibility
namespace Text

/-- The white-space characters. -/
def blankRanges : List (Nat × Nat) :=
  [(0x9, 0xD), (0x20, 0x20), (0x85, 0x85), (0xA0, 0xA0), (0x1680, 0x1680), (0x2000, 0x200A),
    (0x2028, 0x2029), (0x202F, 0x202F), (0x205F, 0x205F), (0x3000, 0x3000)]

/-- Whether the character is white space. -/
def isBlank (c : Char) : Bool :=
  inRanges blankRanges c

/-- The text without white space at its start. -/
def trimStart (cs : List Char) : List Char :=
  cs.dropWhile isBlank

/-- The text without white space at its ends. -/
def trim (cs : List Char) : List Char :=
  (trimStart (trimStart cs).reverse).reverse

theorem isBlank_iff {c : Char} :
    isBlank c = true ↔ ∃ r ∈ blankRanges, r.1 ≤ c.toNat ∧ c.toNat ≤ r.2 :=
  inRanges_iff

theorem trimStart_eq_nil_iff {cs : List Char} :
    trimStart cs = [] ↔ ∀ c ∈ cs, isBlank c = true := by
  induction cs with
  | nil => simp [trimStart]
  | cons c cs ih =>
    cases h : isBlank c with
    | false => simp [trimStart, List.dropWhile, h]
    | true =>
      have hstep : trimStart (c :: cs) = trimStart cs := by simp [trimStart, List.dropWhile, h]
      rw [hstep, ih]
      simp [h]

/-- What is left after dropping leading white space does not start with any. -/
theorem isBlank_head_trimStart {cs rest : List Char} {c : Char}
    (h : trimStart cs = c :: rest) : isBlank c = false := by
  induction cs with
  | nil => simp [trimStart] at h
  | cons d cs ih =>
    cases hd : isBlank d with
    | false =>
      simp only [trimStart, List.dropWhile, hd, List.cons.injEq] at h
      rw [← h.1, hd]
    | true => exact ih (by simpa [trimStart, List.dropWhile, hd] using h)

/-- A text trims to nothing exactly when it holds white space alone. -/
theorem trim_eq_nil_iff {cs : List Char} : trim cs = [] ↔ ∀ c ∈ cs, isBlank c = true := by
  rw [trim, List.reverse_eq_nil_iff, ← trimStart_eq_nil_iff, trimStart_eq_nil_iff]
  cases h : trimStart cs with
  | nil => simp
  | cons c rest =>
    constructor
    · intro hall
      have hc := hall c (by simp)
      rw [isBlank_head_trimStart h] at hc
      exact absurd hc (by decide)
    · intro hnil
      simp at hnil

end Text
end Eligibility
