import Eligibility.Proofs.Condition.Spelling
import Eligibility.Token.Scan

/-!
# What is cut off as a comparison

A comparison that is cut off a text is a sign with white space around it and the spelling of an
operand.  A number and a word are cut off where no word goes on, so neither changes when more text
is put at the end, provided that the new text parts from a number.

**Results.**
* `exists_of_comparison?`: the pieces of a comparison;
* `spelled_of_operand?`: the operand in it is the spelling of a literal;
* `comparison?_append`: a comparison is cut off in the same way if more text comes at the end.
-/

namespace Eligibility
namespace Token

open Text

/-- Whether a number before the character may go on with it. -/
def extendsNumber (c : Char) : Bool :=
  isWord c || c == '.'

/-- The text parts from a literal before it. -/
def Parts (rest : List Char) : Prop :=
  Stops extendsNumber rest

theorem Parts.stops_isWord
    {rest : List Char}
    (h : Parts rest) :
    Stops isWord rest := by
  refine h.mono ?_
  intro c hc
  exact (Bool.or_eq_false_iff.mp hc).1

theorem Parts.stops_isDigit
    {rest : List Char}
    (h : Parts rest) :
    Stops isDigit rest :=
  h.stops_isWord.mono fun _ => isDigit_eq_false_of_isWord

theorem startsWord_of_stops
    {rest : List Char}
    (h : Stops isWord rest) :
    startsWord rest = false := by
  cases rest with
  | nil => rfl
  | cons c more => exact h

theorem Parts.fraction?_eq_none
    {rest : List Char}
    (h : Parts rest) :
    fraction? rest = none := by
  unfold fraction?
  split
  · have hpoint : extendsNumber '.' = false := h
    exact absurd hpoint (by decide)
  · rfl

theorem stops_of_startsWord
    {rest : List Char}
    (h : startsWord rest = false) :
    Stops isWord rest := by
  cases rest with
  | nil => trivial
  | cons c more => exact h

theorem isPlain_of_isWord
    {c : Char}
    (h : isWord c = true) :
    Literal.isPlain c = true := by
  simp [Literal.isPlain, h]

/-! ## Operands that are cut off -/

/-- An operand without quotes is cut off where no word goes on. -/
structure CutBare (cut rest : List Char) : Prop where
  ne_nil : cut ≠ []
  isPlain : ∀ c ∈ cut, Literal.isPlain c = true
  stops : Stops isWord rest

theorem isPlain_of_mem_digits
    {c : Char} {cs : List Char}
    (h : c ∈ cs.takeWhile isDigit) :
    Literal.isPlain c = true :=
  isPlain_of_isWord (isWord_of_isDigit (List.mem_takeWhile_imp h))

theorem cutBare_of_fraction?
    {cs cut rest : List Char}
    (h : fraction? cs = some (cut, rest)) :
    CutBare cut rest := by
  unfold fraction? at h
  split at h
  · simp only at h
    split at h
    · simp at h
    · rename_i hend
      simp only [Bool.or_eq_true, decide_eq_true_eq, not_or, Bool.not_eq_true] at hend
      simp only [Option.some.injEq, Prod.mk.injEq] at h
      obtain ⟨rfl, rfl⟩ := h
      refine ⟨by simp, ?_, stops_of_startsWord hend.2⟩
      intro c hc
      rcases List.mem_cons.mp hc with rfl | hc
      · rfl
      · exact isPlain_of_mem_digits hc
  · simp at h

theorem cutBare_of_unsigned?
    {cs cut rest : List Char}
    (h : unsigned? cs = some (cut, rest)) :
    CutBare cut rest := by
  unfold unsigned? at h
  simp only at h
  split at h
  · simp at h
  · rename_i hdigits
    split at h
    · rename_i fraction after hfraction
      simp only [Option.some.injEq, Prod.mk.injEq] at h
      obtain ⟨rfl, rfl⟩ := h
      have hcut := cutBare_of_fraction? hfraction
      refine ⟨by simp [hdigits], ?_, hcut.stops⟩
      intro c hc
      rcases List.mem_append.mp hc with hc | hc
      · exact isPlain_of_mem_digits hc
      · exact hcut.isPlain c hc
    · split at h
      · simp at h
      · rename_i hend
        simp only [Bool.not_eq_true] at hend
        simp only [Option.some.injEq, Prod.mk.injEq] at h
        obtain ⟨rfl, rfl⟩ := h
        exact ⟨hdigits, fun c => isPlain_of_mem_digits, stops_of_startsWord hend⟩

theorem cutBare_of_number?
    {cs cut rest : List Char}
    (h : number? cs = some (cut, rest)) :
    CutBare cut rest := by
  unfold number? at h
  split at h
  · obtain ⟨⟨digits, after⟩, hdigits, heq⟩ := Option.map_eq_some_iff.mp h
    obtain ⟨rfl, rfl⟩ := Prod.mk.inj heq
    have hcut := cutBare_of_unsigned? hdigits
    refine ⟨by simp, ?_, hcut.stops⟩
    intro c hc
    rcases List.mem_cons.mp hc with rfl | hc
    · rfl
    · exact hcut.isPlain c hc
  · exact cutBare_of_unsigned? h

theorem cutBare_of_word?
    {cs cut rest : List Char}
    (h : word? cs = some (cut, rest)) :
    CutBare cut rest := by
  unfold word? at h
  split at h
  · rename_i hstart
    simp only [Option.some.injEq, Prod.mk.injEq] at h
    obtain ⟨rfl, rfl⟩ := h
    refine ⟨?_, fun c hc => isPlain_of_isWord (List.mem_takeWhile_imp hc), stops_dropWhile _ _⟩
    cases cs with
    | nil => simp [startsWord] at hstart
    | cons c more =>
        have hc : isWord c = true := hstart
        simp [hc]
  · simp at h

theorem quoted_of_quotation?
    {cs cut rest : List Char}
    (h : quotation? cs = some (cut, rest)) :
    ∃ inner, '\'' ∉ inner ∧ cut = '\'' :: (inner ++ ['\'']) := by
  unfold quotation? at h
  split at h
  · rename_i inner
    split at h
    · rename_i quote after hafter
      simp only [Option.some.injEq, Prod.mk.injEq] at h
      obtain ⟨rfl, rfl⟩ := h
      have hquote := stops_dropWhile (fun c => decide (c ≠ '\'')) inner
      rw [hafter, stops_cons] at hquote
      have hmem : '\'' ∉ inner.takeWhile fun c => decide (c ≠ '\'') :=
        not_mem_takeWhile rfl inner
      refine ⟨_, hmem, ?_⟩
      rw [show quote = '\'' by simpa using hquote]
    · simp at h
  · simp at h

/-- What is cut off as an operand spells a literal, and no word is cut short. -/
theorem spelled_of_operand?
    {cs cut rest : List Char}
    (h : operand? cs = some (cut, rest)) :
    ∃ l, Literal.Spelled cut l ∧ ('\'' ∉ cut → Stops isWord rest) := by
  have hbare (hcut : CutBare cut rest) :
      ∃ l, Literal.Spelled cut l ∧ ('\'' ∉ cut → Stops isWord rest) :=
    ⟨_, .bare hcut.ne_nil hcut.isPlain, fun _ => hcut.stops⟩
  simp only [operand?, Option.or_eq_some_iff] at h
  rcases h with h | ⟨_, h | ⟨_, h⟩⟩
  · obtain ⟨inner, hinner, rfl⟩ := quoted_of_quotation? h
    exact ⟨_, .quoted hinner, fun hquote => absurd (by simp) hquote⟩
  · exact hbare (cutBare_of_number? h)
  · exact hbare (cutBare_of_word? h)

/-! ## More text at the end -/

theorem startsWord_append
    (cs : List Char) {more : List Char}
    (hmore : Stops isWord more) :
    startsWord (cs ++ more) = startsWord cs := by
  cases cs with
  | nil => exact startsWord_of_stops hmore
  | cons c cs => rfl

/-- A text that starts with no point starts with no fraction. -/
theorem fraction?_of_ne
    {c : Char} (cs : List Char)
    (h : c ≠ '.') :
    fraction? (c :: cs) = none := by
  unfold fraction?
  split
  · rename_i heq
    exact absurd (List.cons.inj heq).1 h
  · rfl

/-- A text that starts with no minus sign is a number if it is one without a sign. -/
theorem number?_of_ne
    {c : Char} (cs : List Char)
    (h : c ≠ '-') :
    number? (c :: cs) = unsigned? (c :: cs) := by
  unfold number?
  split
  · rename_i heq
    exact absurd (List.cons.inj heq).1 h
  · rfl

theorem fraction?_append_parts
    (cs : List Char) {more : List Char}
    (hmore : Parts more) :
    fraction? (cs ++ more) = (fraction? cs).map fun cut => (cut.1, cut.2 ++ more) := by
  cases cs with
  | nil => exact hmore.fraction?_eq_none
  | cons c cs =>
      by_cases hc : c = '.'
      · subst hc
        rw [List.cons_append, fraction?, fraction?,
          takeWhile_append_stops cs hmore.stops_isDigit,
          dropWhile_append_stops cs hmore.stops_isDigit,
          startsWord_append _ hmore.stops_isWord]
        split <;> rfl
      · rw [List.cons_append, fraction?_of_ne _ hc, fraction?_of_ne _ hc]
        rfl

theorem unsigned?_append
    (cs : List Char) {more : List Char}
    (hmore : Parts more) :
    unsigned? (cs ++ more) = (unsigned? cs).map fun cut => (cut.1, cut.2 ++ more) := by
  rw [unsigned?, unsigned?, takeWhile_append_stops cs hmore.stops_isDigit,
    dropWhile_append_stops cs hmore.stops_isDigit, fraction?_append_parts _ hmore,
    startsWord_append _ hmore.stops_isWord]
  split
  · rfl
  · cases fraction? (cs.dropWhile isDigit) with
    | some cut => rfl
    | none =>
        simp only [Option.map_none]
        split <;> rfl

theorem number?_append
    {cs more : List Char}
    (hne : cs ≠ [])
    (hmore : Parts more) :
    number? (cs ++ more) = (number? cs).map fun cut => (cut.1, cut.2 ++ more) := by
  cases cs with
  | nil => exact absurd rfl hne
  | cons c cs =>
      by_cases hc : c = '-'
      · subst hc
        rw [List.cons_append, number?, number?, unsigned?_append cs hmore]
        cases unsigned? cs <;> rfl
      · rw [List.cons_append, number?_of_ne _ hc, number?_of_ne _ hc, ← List.cons_append,
          unsigned?_append _ hmore]

theorem word?_append
    (cs : List Char) {more : List Char}
    (hmore : Parts more) :
    word? (cs ++ more) = (word? cs).map fun cut => (cut.1, cut.2 ++ more) := by
  rw [word?, word?, startsWord_append cs hmore.stops_isWord,
    takeWhile_append_stops cs hmore.stops_isWord, dropWhile_append_stops cs hmore.stops_isWord]
  split <;> rfl

theorem quotation?_append
    {cs : List Char}
    (h : '\'' ∉ cs)
    (rest : List Char) :
    quotation? ('\'' :: (cs ++ '\'' :: rest)) = some ('\'' :: (cs ++ ['\'']), rest) := by
  have hrun := Condition.ne_quote_of_not_mem h
  have hstop : Stops (fun c => decide (c ≠ '\'')) ('\'' :: rest) := rfl
  rw [quotation?, takeWhile_append_of_stops hrun hstop, dropWhile_append_of_stops hrun hstop]

theorem quotation?_of_ne
    {c : Char} (cs : List Char)
    (h : c ≠ '\'') :
    quotation? (c :: cs) = none := by
  unfold quotation?
  split
  · rename_i heq
    exact absurd (List.cons.inj heq).1 h
  · rfl

/-- A number and a word start with no quote. -/
theorem ne_quote_of_bare
    {c : Char} {cs : List Char} {cut : List Char × List Char}
    (h : (number? (c :: cs)).or (word? (c :: cs)) = some cut) :
    c ≠ '\'' := by
  rintro rfl
  simp [number?, unsigned?, word?, startsWord, isDigit, isWord] at h

theorem operand?_append
    {cs cut rest more : List Char}
    (h : operand? cs = some (cut, rest))
    (hmore : Parts more) :
    operand? (cs ++ more) = some (cut, rest ++ more) := by
  rw [operand?, Option.or_eq_some_iff] at h
  rcases h with hquoted | ⟨_, hbare⟩
  · obtain ⟨inner, hinner, rfl⟩ := quoted_of_quotation? hquoted
    rw [← append_of_quotation? hquoted, operand?]
    simp [quotation?_append hinner (rest ++ more)]
  · cases cs with
    | nil => simp [number?, unsigned?, word?, startsWord] at hbare
    | cons c cs =>
        rw [List.cons_append, operand?, quotation?_of_ne _ (ne_quote_of_bare hbare),
          ← List.cons_append, number?_append (by simp) hmore, word?_append _ hmore,
          Option.none_or, ← Option.map_or, hbare]
        rfl

/-! ## The comparison -/

/-- An operand starts with no white space. -/
theorem stops_isBlank_of_operand?
    {cs cut rest : List Char}
    (h : operand? cs = some (cut, rest)) :
    Stops isBlank cs ∧ cs ≠ [] := by
  obtain ⟨l, hspelled, -⟩ := spelled_of_operand? h
  obtain ⟨c, more, rfl, hblank, -⟩ := Condition.exists_head_of_spelled hspelled
  rw [← append_of_operand? h]
  exact ⟨hblank, by simp⟩

/-- The pieces of a comparison: a sign and an operand, with white space or none around the sign. -/
theorem exists_of_comparison?
    {cs cut rest : List Char}
    (h : comparison? cs = some (cut, rest)) :
    ∃ (before after operand : List Char) (sign : Char),
      cut = before ++ sign :: (after ++ operand) ∧
      (∀ c ∈ before, isBlank c = true) ∧
      (∀ c ∈ after, isBlank c = true) ∧
      isSign sign = true ∧
      operand? (operand ++ rest) = some (operand, rest) := by
  unfold comparison? at h
  split at h
  · simp at h
  · rename_i sign tail hdrop
    split at h
    · rename_i hsign
      obtain ⟨⟨operand, after⟩, hoperand, heq⟩ := Option.map_eq_some_iff.mp h
      obtain ⟨rfl, rfl⟩ := Prod.mk.inj heq
      refine ⟨_, _, _, sign, rfl, fun c => List.mem_takeWhile_imp, fun c => List.mem_takeWhile_imp,
        hsign, ?_⟩
      rw [append_of_operand? hoperand]
      exact hoperand
    · simp at h

/-- Every sign is the sign of a comparator. -/
theorem exists_comparator
    {sign : Char}
    (h : isSign sign = true) :
    ∃ k : Comparator, k.symbol.toList = [sign] := by
  simp only [isSign, Bool.or_eq_true, decide_eq_true_eq] at h
  rcases h with (rfl | rfl) | rfl
  · exact ⟨.below, rfl⟩
  · exact ⟨.above, rfl⟩
  · exact ⟨.equal, rfl⟩

/-- Signs are neither white space nor word characters. -/
theorem isBlank_isWord_of_isSign
    {sign : Char}
    (h : isSign sign = true) :
    isBlank sign = false ∧ isWord sign = false := by
  obtain ⟨k, hk⟩ := exists_comparator h
  obtain ⟨sign', hk', -, hblank, hword⟩ := Condition.exists_symbol k
  obtain rfl : sign = sign' := by simpa [hk] using hk'
  exact ⟨hblank, hword⟩

/-- No word goes on with a comparison. -/
theorem stops_isWord_of_comparison?
    {cs cut rest : List Char}
    (h : comparison? cs = some (cut, rest)) :
    Stops isWord cs := by
  obtain ⟨before, after, operand, sign, rfl, hbefore, -, hsign, -⟩ := exists_of_comparison? h
  rw [← append_of_comparison? h, List.append_assoc, List.cons_append]
  exact Condition.stops_isWord_append hbefore (isBlank_isWord_of_isSign hsign).2

/-- A sign with white space or none around it and an operand that is cut off are a comparison. -/
theorem comparison?_of_operand?
    {before after tail operand rest : List Char} {sign : Char}
    (hbefore : ∀ c ∈ before, isBlank c = true)
    (hafter : ∀ c ∈ after, isBlank c = true)
    (hsign : isSign sign = true)
    (hoperand : operand? tail = some (operand, rest)) :
    comparison? (before ++ sign :: (after ++ tail)) =
      some (before ++ sign :: (after ++ operand), rest) := by
  have hblank : Stops isBlank (sign :: (after ++ tail)) := (isBlank_isWord_of_isSign hsign).1
  have hstart := (stops_isBlank_of_operand? hoperand).1
  rw [comparison?, dropWhile_append_of_stops hbefore hblank,
    takeWhile_append_of_stops hbefore hblank]
  simp only [if_pos hsign, dropWhile_append_of_stops hafter hstart,
    takeWhile_append_of_stops hafter hstart, hoperand, Option.map_some]

/-- A comparison is cut off in the same way if more text comes at the end. -/
theorem comparison?_append
    {cs cut rest more : List Char}
    (h : comparison? cs = some (cut, rest))
    (hmore : Parts more) :
    comparison? (cs ++ more) = some (cut, rest ++ more) := by
  obtain ⟨before, after, operand, sign, rfl, hbefore, hafter, hsign, hoperand⟩ :=
    exists_of_comparison? h
  have hextended := operand?_append hoperand hmore
  have hcs : cs ++ more = before ++ sign :: (after ++ (operand ++ rest ++ more)) := by
    rw [← append_of_comparison? h]
    simp
  rw [hcs]
  exact comparison?_of_operand? hbefore hafter hsign hextended

end Token
end Eligibility
