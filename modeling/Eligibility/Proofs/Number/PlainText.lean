import Eligibility.Number.Layout
import Eligibility.Number.Numeral
import Eligibility.Proofs.Number.Exact
import Eligibility.Proofs.Text.Classes
import Eligibility.Proofs.Text.Run

/-!
# Numbers in rule texts

A rule text shows a finite number as digits with at most one point, after a minus sign if there is
one.  Read as a numeral, these digits are a decimal with the rank of the number.

**Results.**
* `exists_pointed_text`: the shape of the text of a finite number;
* `finite?_shown`: the text of a finite number reads back as that number, sign of zero included.
-/

namespace Eligibility

open Binary64

namespace Layout

/-- Digits, with a point before the second part if there is one. -/
def pointed (whole fraction : List Char) : List Char :=
  whole ++ if fraction = [] then [] else '.' :: fraction

/-- Digits with digits in front of them. -/
structure IsPointed (text whole fraction : List Char) : Prop where
  text_eq : text = pointed whole fraction
  whole_ne_nil : whole ≠ []
  isDigit : ∀ c ∈ whole ++ fraction, c.isDigit = true

/-- The decimal that digits around a point spell. -/
def pointedDecimal (whole fraction : List Char) : Decimal :=
  ⟨Nat.ofDigitChars 10 (whole ++ fraction) 0, -fraction.length⟩

theorem isDigit_digitText
    {n : Nat} {c : Char}
    (h : c ∈ digitText n) :
    c.isDigit = true :=
  Nat.isDigit_of_mem_toDigits (by decide) (by decide) h

theorem ofDigitChars_digitText_append
    (n : Nat) (cs : List Char) :
    Nat.ofDigitChars 10 (digitText n ++ cs) 0 = Nat.ofDigitChars 10 cs n := by
  rw [Nat.ofDigitChars_append, digitText, Nat.ofDigitChars_ten_toDigits]

theorem exists_pointed_whole
    {digits e : Nat}
    (h : Decimal.rank ⟨digits, e⟩ < infinityRank) :
    ∃ whole fraction, IsPointed (plain.positionalText ⟨digits, e⟩) whole fraction ∧
      (pointedDecimal whole fraction).rank = Decimal.rank ⟨digits, e⟩ := by
  refine ⟨digitText digits ++ List.replicate e '0', [], ⟨?_, ?_, ?_⟩, ?_⟩
  · rw [positionalText, if_pos (by simp)]
    simp [pointed, plain]
  · simp [digitText]
  · intro c hc
    rw [List.append_nil, List.mem_append] at hc
    rcases hc with hc | hc
    · exact isDigit_digitText hc
    · rw [List.eq_of_mem_replicate hc]
      decide
  · rw [← Decimal.rank_mul_ten_pow h, pointedDecimal, List.append_nil,
      ofDigitChars_digitText_append, Nat.ofDigitChars_replicate_zero, Nat.mul_comm]
    rfl

/-- The point lies between two digits. -/
theorem exists_pointed_inside
    {digits places : Nat}
    (hplaces : 0 < places)
    (hlt : places < (digitText digits).length) :
    ∃ whole fraction, IsPointed (plain.positionalText ⟨digits, -places⟩) whole fraction ∧
      pointedDecimal whole fraction = ⟨digits, -places⟩ := by
  have hneg : ¬ (0 : Int) ≤ -places := by omega
  have hcount : (-(-places : Int)).toNat = places := by omega
  have hdigits (c : Char) (hc : c ∈ digitText digits) : c.isDigit = true := isDigit_digitText hc
  have hvalue : Nat.ofDigitChars 10 (digitText digits) 0 = digits :=
    Nat.ofDigitChars_ten_toDigits
  have htext : plain.positionalText ⟨digits, -places⟩ =
      (digitText digits).take ((digitText digits).length - places) ++
        '.' :: (digitText digits).drop ((digitText digits).length - places) := by
    simp only [positionalText, hcount, if_neg hneg, if_pos hlt]
  rw [htext]
  generalize hn : (digitText digits).length - places = n
  generalize digitText digits = ds at *
  have hfraction : (ds.drop n).length = places := by
    rw [List.length_drop]
    omega
  have hne : ds.drop n ≠ [] := List.ne_nil_of_length_pos (by omega)
  refine ⟨ds.take n, ds.drop n, ⟨?_, ?_, ?_⟩, ?_⟩
  · rw [pointed, if_neg hne]
  · apply List.ne_nil_of_length_pos
    rw [List.length_take]
    omega
  · rw [List.take_append_drop]
    exact hdigits
  · rw [pointedDecimal, List.take_append_drop, hfraction, hvalue]

/-- The point lies before the digits, with zeros between them. -/
theorem exists_pointed_before
    {digits places : Nat}
    (hle : (digitText digits).length ≤ places) :
    ∃ whole fraction, IsPointed (plain.positionalText ⟨digits, -places⟩) whole fraction ∧
      pointedDecimal whole fraction = ⟨digits, -places⟩ := by
  have hpos : 0 < (digitText digits).length := Nat.length_toDigits_pos
  have hneg : ¬ (0 : Int) ≤ -places := by omega
  have hcount : (-(-places : Int)).toNat = places := by omega
  have htext : plain.positionalText ⟨digits, -places⟩ =
      '0' :: '.' :: (List.replicate (places - (digitText digits).length) '0' ++
        digitText digits) := by
    simp only [positionalText, hcount, if_neg hneg, if_neg (Nat.not_lt.mpr hle)]
  rw [htext]
  generalize hzeros : places - (digitText digits).length = zeros
  have hfraction : (List.replicate zeros '0' ++ digitText digits).length = places := by
    rw [List.length_append, List.length_replicate]
    omega
  have hne : List.replicate zeros '0' ++ digitText digits ≠ [] :=
    List.ne_nil_of_length_pos (by omega)
  have hjoin : ['0'] ++ (List.replicate zeros '0' ++ digitText digits) =
      List.replicate (zeros + 1) '0' ++ digitText digits := rfl
  refine ⟨['0'], List.replicate zeros '0' ++ digitText digits, ⟨?_, by simp, ?_⟩, ?_⟩
  · rw [pointed, if_neg hne]
    rfl
  · intro c hc
    rw [hjoin, List.mem_append] at hc
    rcases hc with hc | hc
    · rw [List.eq_of_mem_replicate hc]
      decide
    · exact isDigit_digitText hc
  · rw [pointedDecimal, hfraction, hjoin, Nat.ofDigitChars_append,
      Nat.ofDigitChars_replicate_zero, Nat.mul_zero, digitText, Nat.ofDigitChars_ten_toDigits]

theorem exists_pointed_magnitudeText
    {k : Nat}
    (hk : k < infinityRank) :
    ∃ whole fraction, IsPointed (plain.magnitudeText k) whole fraction ∧
      (pointedDecimal whole fraction).rank = k := by
  by_cases hzero : k = 0
  · subst hzero
    exact ⟨['0'], [], ⟨rfl, by simp, by simp⟩, by decide⟩
  · have hrank := Decimal.rank_shortest .up (Nat.pos_of_ne_zero hzero) hk
    have htext : plain.magnitudeText k = plain.positionalText (Decimal.shortest .up k) := by
      rw [magnitudeText, if_neg hzero]
      rfl
    rw [htext]
    generalize Decimal.shortest .up k = d at hrank ⊢
    obtain ⟨digits, exponent⟩ := d
    by_cases he : 0 ≤ exponent
    · obtain ⟨e, rfl⟩ := Int.eq_ofNat_of_zero_le he
      have hfinite : Decimal.rank ⟨digits, e⟩ < infinityRank := by
        rw [hrank]
        exact hk
      obtain ⟨whole, fraction, hpointed, hvalue⟩ := exists_pointed_whole hfinite
      exact ⟨whole, fraction, hpointed, hvalue.trans hrank⟩
    · obtain ⟨p, hp⟩ := Int.eq_ofNat_of_zero_le (show 0 ≤ -exponent by omega)
      obtain rfl : exponent = -(p : Int) := by omega
      by_cases hlt : p < (digitText digits).length
      · obtain ⟨whole, fraction, hpointed, hvalue⟩ := exists_pointed_inside (by omega) hlt
        exact ⟨whole, fraction, hpointed, by rw [hvalue, hrank]⟩
      · obtain ⟨whole, fraction, hpointed, hvalue⟩ := exists_pointed_before (Nat.not_lt.mp hlt)
        exact ⟨whole, fraction, hpointed, by rw [hvalue, hrank]⟩

/-- The text of a finite number is its sign and a whole part and a fraction that have its rank. -/
theorem exists_pointed_text
    {x : Binary64}
    (hx : x.isFinite = true) :
    ∃ whole fraction,
      plain.text x = (if x.negative then ['-'] else []) ++ pointed whole fraction ∧
      IsPointed (pointed whole fraction) whole fraction ∧
      (pointedDecimal whole fraction).rank = x.rank := by
  have hrank : x.rank < infinityRank := by simpa [isFinite] using hx
  obtain ⟨whole, fraction, hpointed, hvalue⟩ := exists_pointed_magnitudeText hrank
  refine ⟨whole, fraction, ?_, ⟨rfl, hpointed.whole_ne_nil, hpointed.isDigit⟩, hvalue⟩
  rw [text, isNaN_of_isFinite hx, hx, hpointed.text_eq]
  rfl

end Layout

namespace Numeral

open Layout

open Text

theorem decimal?_pointed
    {text whole fraction : List Char}
    (h : IsPointed text whole fraction) :
    decimal? text = some (pointedDecimal whole fraction) := by
  have hwhole (c : Char) (hc : c ∈ whole) : c.isDigit = true :=
    h.isDigit c (List.mem_append_left _ hc)
  have hfraction (c : Char) (hc : c ∈ fraction) : c.isDigit = true :=
    h.isDigit c (List.mem_append_right _ hc)
  rw [h.text_eq]
  by_cases hne : fraction = []
  · rw [pointed, if_pos hne, List.append_nil, decimal?, takeWhile_eq_self hwhole,
      dropWhile_eq_nil hwhole]
    simp [takeFraction, exponent?, h.whole_ne_nil, pointedDecimal, hne]
  · have hpoint : Stops Char.isDigit ('.' :: fraction) := rfl
    rw [pointed, if_neg hne, decimal?, takeWhile_append_of_stops hwhole hpoint,
      dropWhile_append_of_stops hwhole hpoint]
    simp [takeFraction, takeWhile_eq_self hfraction, dropWhile_eq_nil hfraction, exponent?,
      h.whole_ne_nil, pointedDecimal]

theorem takeSign_of_isDigit
    {c : Char}
    (hc : c.isDigit = true)
    (more : List Char) :
    takeSign (c :: more) = (false, c :: more) := by
  have hminus : c ≠ '-' := ne_of_isDigit hc (by decide)
  have hplus : c ≠ '+' := ne_of_isDigit hc (by decide)
  simp [takeSign, hminus, hplus]

/-- The first character of pointed digits is a digit. -/
theorem takeSign_pointed
    {text whole fraction : List Char}
    (h : IsPointed text whole fraction) :
    takeSign text = (false, text) := by
  obtain ⟨htext, hne, hdigit⟩ := h
  cases whole with
  | nil => exact absurd rfl hne
  | cons c more =>
      rw [htext, pointed, List.cons_append]
      exact takeSign_of_isDigit (hdigit c (by simp)) _

theorem number?_text
    {x : Binary64}
    (hx : x.isFinite = true) :
    number? (plain.text x) = some x := by
  obtain ⟨whole, fraction, htext, hpointed, hrank⟩ := exists_pointed_text hx
  have hdecimal := decimal?_pointed hpointed
  have hsign : takeSign (plain.text x) = (x.negative, pointed whole fraction) := by
    rw [htext]
    cases x.negative with
    | true => rfl
    | false => exact takeSign_pointed hpointed
  rw [number?, hsign, hdecimal, Option.map_some, hrank, ofRank_rank]

/-- The text of a finite number holds digits, a point and a sign alone. -/
theorem mem_text
    {x : Binary64}
    (hx : x.isFinite = true) :
    ∀ c ∈ plain.text x, c.isDigit = true ∨ c = '.' ∨ c = '-' := by
  obtain ⟨whole, fraction, htext, ⟨-, -, hdigit⟩, -⟩ := exists_pointed_text hx
  intro c hc
  rw [htext, pointed] at hc
  simp only [List.mem_append] at hc
  rcases hc with hc | hc | hc
  · split at hc
    · right; right
      exact List.mem_singleton.mp hc
    · simp at hc
  · exact .inl (hdigit c (List.mem_append_left _ hc))
  · split at hc
    · simp at hc
    · rcases List.mem_cons.mp hc with rfl | hc
      · right; left
        rfl
      · exact .inl (hdigit c (List.mem_append_right _ hc))

/-- The text of a finite number reads back as that number, sign of zero included. -/
theorem finite?_shown
    {x : Binary64}
    (hx : x.isFinite = true) :
    finite? x.shown = some x := by
  have hblank : ∀ c ∈ plain.text x, isBlank c = false := by
    intro c hc
    rcases mem_text hx c hc with h | rfl | rfl
    · exact isBlank_of_isWord (isWord_of_ascii h)
    · decide
    · decide
  rw [finite?, shown, String.toList_ofList, trim_eq_self hblank, number?_text hx,
    Option.filter_some, if_pos hx]

end Numeral
end Eligibility
