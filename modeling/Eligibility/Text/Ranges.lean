/-!
# Sets of characters as ranges of code points

A character class that no short rule describes is kept as a list of ranges, both ends included, and
every test on it goes through `inRanges`.  Lemmas about a class speak of `inRanges` and of the
listed ends, never of the table itself.

**Results.**
* `inRanges_iff`: membership is membership in one of the ranges;
* `inRanges_of_covers`: a table whose ranges all lie inside ranges of another describes a smaller
  set.
-/

namespace Eligibility
namespace Text

/-- Whether a range of the table holds the character. -/
def inRanges (ranges : List (Nat × Nat)) (c : Char) : Bool :=
  ranges.any fun r => decide (r.1 ≤ c.toNat) && decide (c.toNat ≤ r.2)

/-- Whether each range of the first table lies inside one range of the second. -/
def covers (inner outer : List (Nat × Nat)) : Bool :=
  inner.all fun r => outer.any fun s => Nat.ble s.1 r.1 && Nat.ble r.2 s.2

theorem inRanges_iff {ranges : List (Nat × Nat)} {c : Char} :
    inRanges ranges c = true ↔ ∃ r ∈ ranges, r.1 ≤ c.toNat ∧ c.toNat ≤ r.2 := by
  simp [inRanges]

/-- A table whose ranges all lie inside ranges of another describes a smaller set. -/
theorem inRanges_of_covers {inner outer : List (Nat × Nat)} {c : Char}
    (h : covers inner outer = true) (hc : inRanges inner c = true) :
    inRanges outer c = true := by
  obtain ⟨r, hr, hlo, hhi⟩ := inRanges_iff.1 hc
  simp only [covers, List.all_eq_true, List.any_eq_true, Bool.and_eq_true, Nat.ble_eq] at h
  obtain ⟨s, hs, hsr, hrs⟩ := h r hr
  exact inRanges_iff.2 ⟨s, hs, Nat.le_trans hsr hlo, Nat.le_trans hhi hrs⟩

end Text
end Eligibility
