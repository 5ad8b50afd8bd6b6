import Eligibility.Condition.Reading
import Eligibility.Proofs.Text.Classes
import Eligibility.Proofs.Text.Run

/-!
# How conditions are spelled

A condition is spelled as a word, the sign of its comparator and an operand, with white space or
none around the sign.  The word is the field.  The operand is a text between quotes, or it consists
of word characters, hyphens and points and stands for the literal that a bare operand stands for.

**Results.**
* `ofText_parts`: reading a word, a sign and whatever comes after them as a condition;
* `ofText_of_spelled`: a spelling reads as the condition that it spells;
* `spelled_or_goes_on`: an operand with more text after it.
-/

namespace Eligibility

open Text

/-- Whether the character can stand in an operand of a rule without quotes. -/
def Literal.isPlain (c : Char) : Bool :=
  isWord c || c == '-' || c == '.'

/-- The operand of a rule, with the literal that it stands for. -/
inductive Literal.Spelled : List Char → Literal → Prop
  | quoted {cs : List Char} (h : '\'' ∉ cs) :
      Spelled ('\'' :: (cs ++ ['\''])) (.text (String.ofList cs))
  | bare {cs : List Char} (hne : cs ≠ []) (h : ∀ c ∈ cs, isPlain c = true) :
      Spelled cs (.ofBare (String.ofList cs))

/-- The text of a condition in a rule, with the condition. -/
inductive Condition.Spelled : List Char → Condition → Prop
  | intro {field before after operand : List Char} {k : Comparator} {l : Literal}
      (hne : field ≠ [])
      (hfield : ∀ c ∈ field, isWord c = true)
      (hbefore : ∀ c ∈ before, isBlank c = true)
      (hafter : ∀ c ∈ after, isBlank c = true)
      (hoperand : Literal.Spelled operand l) :
      Spelled (field ++ (before ++ (k.symbol.toList ++ (after ++ operand))))
        ⟨String.ofList field, k, l⟩

namespace Condition

/-! ## Characters -/

theorem isSign_of_isWord
    {c : Char}
    (h : isWord c = true) :
    isSign c = false := by
  have hlt : c ≠ '<' := ne_of_isWord h (by decide)
  have hgt : c ≠ '>' := ne_of_isWord h (by decide)
  have heq : c ≠ '=' := ne_of_isWord h (by decide)
  have hbang : c ≠ '!' := ne_of_isWord h (by decide)
  simp [isSign, hlt, hgt, heq, hbang]

theorem isSign_of_isBlank
    {c : Char}
    (h : isBlank c = true) :
    isSign c = false := by
  have hlt : c ≠ '<' := ne_of_isBlank h (by decide)
  have hgt : c ≠ '>' := ne_of_isBlank h (by decide)
  have heq : c ≠ '=' := ne_of_isBlank h (by decide)
  have hbang : c ≠ '!' := ne_of_isBlank h (by decide)
  simp [isSign, hlt, hgt, heq, hbang]

theorem exists_symbol
    (k : Comparator) :
    ∃ sign, k.symbol.toList = [sign] ∧ isSign sign = true ∧ isBlank sign = false ∧
      isWord sign = false := by
  cases k <;> exact ⟨_, rfl, by decide, by decide, by decide⟩

/-- White space and signs end a word. -/
theorem stops_isWord_append
    {blanks rest : List Char}
    (hblanks : ∀ c ∈ blanks, isBlank c = true)
    (hrest : Stops isWord rest) :
    Stops isWord (blanks ++ rest) := by
  cases blanks with
  | nil => exact hrest
  | cons c blanks => exact isWord_eq_false_of_isBlank (hblanks c (by simp))

/-- White space ends a run of signs. -/
theorem stops_isSign_append
    {blanks rest : List Char}
    (hblanks : ∀ c ∈ blanks, isBlank c = true)
    (hrest : Stops isSign rest) :
    Stops isSign (blanks ++ rest) := by
  cases blanks with
  | nil => exact hrest
  | cons c blanks => exact isSign_of_isBlank (hblanks c (by simp))

theorem trimStart_append
    {blanks rest : List Char}
    (hblanks : ∀ c ∈ blanks, isBlank c = true)
    (hrest : Stops isBlank rest) :
    trimStart (blanks ++ rest) = rest :=
  dropWhile_append_of_stops hblanks hrest

/-! ## Operands -/

/-- Whether the character can stand in an operand without quotes that reaches to the end of the
text. -/
def isBare (c : Char) : Bool :=
  !isBlank c && c ≠ '\''

theorem isBare_of_isPlain
    {c : Char}
    (h : Literal.isPlain c = true) :
    isBare c = true := by
  simp only [Literal.isPlain, Bool.or_eq_true, beq_iff_eq] at h
  rcases h with (h | rfl) | rfl
  · have hquote : c ≠ '\'' := ne_of_isWord h (by decide)
    simp [isBare, isBlank_of_isWord h, hquote]
  · decide
  · decide

theorem isSign_of_isPlain
    {c : Char}
    (h : Literal.isPlain c = true) :
    isSign c = false := by
  simp only [Literal.isPlain, Bool.or_eq_true, beq_iff_eq] at h
  rcases h with (h | rfl) | rfl
  · exact isSign_of_isWord h
  · decide
  · decide

theorem isBlank_of_isBare
    {c : Char}
    (h : isBare c = true) :
    isBlank c = false := by
  simp only [isBare, Bool.and_eq_true, Bool.not_eq_true'] at h
  exact h.1

theorem ne_quote_of_not_mem
    {cs : List Char}
    (h : '\'' ∉ cs) :
    ∀ c ∈ cs, decide (c ≠ '\'') = true := by
  intro c hc
  simp only [decide_eq_true_eq]
  rintro rfl
  exact h hc

theorem operand?_quoted_append
    {cs : List Char}
    (h : '\'' ∉ cs)
    (rest : List Char) :
    operand? ('\'' :: (cs ++ '\'' :: rest)) =
      if rest.all isBlank then some (.text (String.ofList cs)) else none := by
  have hrun := ne_quote_of_not_mem h
  have hstop : Stops (fun c => decide (c ≠ '\'')) ('\'' :: rest) := rfl
  rw [operand?, takeWhile_append_of_stops hrun hstop, dropWhile_append_of_stops hrun hstop]

theorem operand?_bare
    {cs : List Char}
    (hne : cs ≠ [])
    (hstart : Stops (· == '\'') cs) :
    operand? cs =
      if (cs.dropWhile isBare).all isBlank then
        some (.ofBare (String.ofList (cs.takeWhile isBare)))
      else none := by
  unfold operand?
  split
  · exact absurd rfl hne
  · exact absurd hstart (by simp)
  · rfl

/-- An operand starts neither with white space nor with a sign. -/
theorem exists_head_of_spelled
    {operand : List Char} {l : Literal}
    (h : Literal.Spelled operand l) :
    ∃ c more, operand = c :: more ∧ isBlank c = false ∧ isSign c = false := by
  cases h with
  | quoted h => exact ⟨_, _, rfl, by decide, by decide⟩
  | bare hne h =>
      cases operand with
      | nil => exact absurd rfl hne
      | cons c more =>
          have hc := h c (by simp)
          exact ⟨c, more, rfl, isBlank_of_isBare (isBare_of_isPlain hc), isSign_of_isPlain hc⟩

/-- If an operand with more text after it is still an operand, either nothing but white space comes
after it, or it has no quotes and goes on. -/
theorem spelled_or_goes_on
    {operand rest : List Char} {l l' : Literal}
    (h : Literal.Spelled operand l)
    (hread : operand? (operand ++ rest) = some l') :
    (l' = l ∧ ∀ c ∈ rest, isBlank c = true) ∨
      ('\'' ∉ operand ∧ rest ≠ [] ∧ Stops isBlank rest) := by
  cases h with
  | quoted h =>
      rw [List.cons_append, List.append_assoc, List.singleton_append,
        operand?_quoted_append h] at hread
      split at hread
      · rename_i hblank
        rw [Option.some.injEq] at hread
        exact .inl ⟨hread.symm, List.all_eq_true.mp hblank⟩
      · simp at hread
  | bare hne h =>
      have hbare : ∀ c ∈ operand, isBare c = true := fun c hc => isBare_of_isPlain (h c hc)
      have hstart : Stops (· == '\'') (operand ++ rest) := by
        refine stops_append hne fun c hc => ?_
        have hc := hbare c hc
        simp only [isBare, Bool.and_eq_true, decide_eq_true_eq] at hc
        simpa using hc.2
      rw [operand?_bare (by simp [hne]) hstart, List.takeWhile_append_of_pos hbare,
        List.dropWhile_append_of_pos hbare] at hread
      cases rest with
      | nil =>
          simp only [List.takeWhile_nil, List.dropWhile_nil, List.append_nil, List.all_nil,
            if_true, Option.some.injEq] at hread
          exact .inl ⟨hread.symm, by simp⟩
      | cons d more =>
          cases hd : isBare d with
          | true =>
              have hquote : '\'' ∉ operand := fun hmem => absurd (h _ hmem) (by decide)
              exact .inr ⟨hquote, by simp, isBlank_of_isBare hd⟩
          | false =>
              have hstop : Stops isBare (d :: more) := hd
              rw [takeWhile_of_stops hstop, dropWhile_of_stops hstop, List.append_nil] at hread
              split at hread
              · rename_i hblank
                rw [Option.some.injEq] at hread
                exact .inl ⟨hread.symm, List.all_eq_true.mp hblank⟩
              · simp at hread

theorem operand?_of_spelled
    {operand : List Char} {l : Literal}
    (h : Literal.Spelled operand l) :
    operand? operand = some l := by
  cases h with
  | quoted h => exact operand?_quoted_append h []
  | bare hne h =>
      have hbare : ∀ c ∈ operand, isBare c = true := fun c hc => isBare_of_isPlain (h c hc)
      have hstart : Stops (· == '\'') operand := by
        refine stops_of_all fun c hc => ?_
        have hc := hbare c hc
        simp only [isBare, Bool.and_eq_true, decide_eq_true_eq] at hc
        simpa using hc.2
      rw [operand?_bare hne hstart, takeWhile_eq_self hbare, dropWhile_eq_nil hbare]
      rfl

/-! ## Conditions -/

/-- A text that starts with a word and a sign is a condition exactly if the rest is an operand. -/
theorem ofText_parts
    {s : String} {lead field before after operand : List Char} {k : Comparator}
    (hs : s.toList = lead ++ (field ++ (before ++ (k.symbol.toList ++ (after ++ operand)))))
    (hlead : ∀ c ∈ lead, isBlank c = true)
    (hne : field ≠ [])
    (hfield : ∀ c ∈ field, isWord c = true)
    (hbefore : ∀ c ∈ before, isBlank c = true)
    (hafter : ∀ c ∈ after, isBlank c = true)
    (hoperand : operand ≠ [])
    (hblank : Stops isBlank operand)
    (hsign : Stops isSign operand) :
    ofText s =
      match operand? operand with
      | some literal => .ok ⟨String.ofList field, k, literal⟩
      | none => .error (.malformedCondition s) := by
  obtain ⟨sign, hsymbol, hisSign, hsignBlank, hsignWord⟩ := exists_symbol k
  rw [hsymbol] at hs
  have hstart : trimStart s.toList = field ++ (before ++ ([sign] ++ (after ++ operand))) := by
    rw [hs]
    exact trimStart_append hlead (stops_append hne fun c hc => isBlank_of_isWord (hfield c hc))
  have hafterField : trimStart (before ++ ([sign] ++ (after ++ operand))) =
      [sign] ++ (after ++ operand) :=
    trimStart_append hbefore hsignBlank
  have hword : Stops isWord (before ++ ([sign] ++ (after ++ operand))) :=
    stops_isWord_append hbefore hsignWord
  have hsigns : ∀ c ∈ [sign], isSign c = true := by simpa using hisSign
  have hstop : Stops isSign (after ++ operand) := stops_isSign_append hafter hsign
  have hsplit : splitSigns? [sign] (after ++ operand) =
      (operand? operand).map fun literal => ([sign], literal) := by
    rw [splitSigns?, if_neg (by simp), trimStart_append hafter hblank]
    cases operand with
    | nil => exact absurd rfl hoperand
    | cons c operand => rfl
  have hcomparator : Comparator.ofSymbol (String.ofList [sign]) = .ok k := by
    rw [← hsymbol, String.ofList_toList, Comparator.ofSymbol_symbol]
  simp only [ofText]
  rw [hstart, takeWhile_append_of_stops hfield hword, dropWhile_append_of_stops hfield hword,
    hafterField, takeWhile_append_of_stops hsigns hstop, dropWhile_append_of_stops hsigns hstop,
    hsplit]
  cases operand? operand with
  | none => rfl
  | some literal => simp only [Option.map_some, if_neg hne, hcomparator]

/-- A spelling reads as the condition that it spells, whatever white space it has. -/
theorem ofText_of_spelled
    {s : String} {c : Condition}
    (h : Spelled s.toList c) :
    ofText s = .ok c := by
  generalize hs : s.toList = text at h
  cases h with
  | intro hne hfield hbefore hafter hoperand =>
      obtain ⟨a, more, rfl, hblank, hsign⟩ := exists_head_of_spelled hoperand
      have hlead : ∀ c ∈ [], isBlank c = true := by simp
      rw [ofText_parts (hs.trans (List.nil_append _).symm) hlead hne hfield hbefore hafter
        (by simp) hblank hsign, operand?_of_spelled hoperand]

end Condition
end Eligibility
