import Eligibility.Proofs.Condition.RuleText
import Eligibility.Proofs.Token.Comparison

/-!
# Cutting one token off a text

What the scanner does at each token of a rule text, given what follows.  A condition that passes the
check is cut off as one token, whatever its literal holds, if the text after it parts from a number:
neither a word goes on there nor a point.  The word of a connective is cut off as such if no sign
follows.

**Results.**
* `operand?_ruleText`: a literal is cut off as an operand;
* `cut_condition_append`, `cut_word_append`: what is cut off at a word;
* `cut_ruleText_append`: a condition is cut off as a token.
-/

namespace Eligibility

open Text

theorem Connective.word_ne_nil (k : Connective) : k.word.toList ≠ [] := by
  cases k <;> decide

theorem Connective.isWord_word
    (k : Connective) :
    ∀ c ∈ k.word.toList, isWord c = true := by
  apply List.all_eq_true.mp
  cases k <;> decide

namespace Token

/-! ## Operands -/

theorem unsigned?_pointed
    {text whole fraction : List Char}
    (h : Layout.IsPointed text whole fraction) :
    unsigned? text = some (text, []) := by
  have hwhole (c : Char) (hc : c ∈ whole) : isDigit c = true :=
    isDigit_of_ascii (h.isDigit c (List.mem_append_left _ hc))
  have hfraction (c : Char) (hc : c ∈ fraction) : isDigit c = true :=
    isDigit_of_ascii (h.isDigit c (List.mem_append_right _ hc))
  rw [h.text_eq]
  by_cases hne : fraction = []
  · rw [Layout.pointed, if_pos hne, List.append_nil, unsigned?, takeWhile_eq_self hwhole,
      dropWhile_eq_nil hwhole]
    simp [h.whole_ne_nil, fraction?, startsWord]
  · have hpoint : Stops isDigit ('.' :: fraction) := rfl
    have hafter : fraction? ('.' :: fraction) = some ('.' :: fraction, []) := by
      simp [fraction?, takeWhile_eq_self hfraction, dropWhile_eq_nil hfraction, hne, startsWord]
    rw [Layout.pointed, if_neg hne, unsigned?, takeWhile_append_of_stops hwhole hpoint,
      dropWhile_append_of_stops hwhole hpoint, hafter]
    simp [h.whole_ne_nil]

theorem number?_text
    {x : Binary64}
    (hx : x.isFinite = true) :
    number? (Layout.plain.text x) = some (Layout.plain.text x, []) := by
  obtain ⟨whole, fraction, htext, hpointed, -⟩ := Layout.exists_pointed_text hx
  have hdigits := unsigned?_pointed hpointed
  rw [htext]
  cases x.negative with
  | true =>
      simp only [if_true, List.nil_append, List.cons_append, number?, hdigits, Option.map_some]
  | false =>
      simp only [Bool.false_eq_true, if_false, List.nil_append]
      unfold number?
      split
      · rename_i more heq
        cases whole with
        | nil => exact absurd rfl hpointed.whole_ne_nil
        | cons c digits =>
            have hc : c.isDigit = true := hpointed.isDigit c (by simp)
            obtain ⟨rfl, -⟩ := List.cons.inj heq
            exact absurd hc (by decide)
      · exact hdigits

theorem quotation?_text
    {x : Binary64}
    (hx : x.isFinite = true) :
    quotation? (Layout.plain.text x) = none := by
  cases htext : Layout.plain.text x with
  | nil => exact absurd htext (Condition.plain_text_ne_nil hx)
  | cons c digits =>
      refine quotation?_of_ne digits ?_
      rintro rfl
      have hplain := Condition.isPlain_of_mem_text hx (c := '\'') (by simp [htext])
      exact absurd hplain (by decide)

/-- A literal is cut off as an operand, all of it. -/
theorem operand?_ruleText
    {l : Literal}
    (hl : l.Writable) :
    operand? l.ruleText = some (l.ruleText, []) := by
  cases l with
  | text s =>
      rw [operand?, Literal.ruleText, quotation?_append hl]
      rfl
  | number x =>
      rw [Literal.ruleText, operand?, quotation?_text hl, number?_text hl]
      rfl

/-! ## Comparisons -/

theorem isSign_eq_false
    {c : Char}
    (h : Condition.isSign c = false) :
    isSign c = false := by
  simp only [Condition.isSign, Bool.or_eq_false_iff] at h
  simp only [isSign, Bool.or_eq_false_iff]
  exact h.1

/-- No comparison follows a word where the next text starts with no sign. -/
theorem comparison?_eq_none
    {c : Char} (rest : List Char)
    (hblank : isBlank c = false)
    (hsign : Condition.isSign c = false) :
    comparison? (' ' :: c :: rest) = none := by
  have hdrop : (' ' :: c :: rest).dropWhile isBlank = c :: rest := by
    rw [List.dropWhile_cons_of_pos (by decide)]
    exact dropWhile_of_stops hblank
  simp [comparison?, hdrop, isSign_eq_false hsign]

theorem comparison?_ruleText
    (k : Comparator) {l : Literal}
    (hl : l.Writable) :
    comparison? (' ' :: (k.symbol.toList ++ ' ' :: l.ruleText)) =
      some (' ' :: (k.symbol.toList ++ ' ' :: l.ruleText), []) := by
  have hsymbol : ∃ s, k.symbol.toList = [s] ∧ isSign s = true ∧ isBlank s = false := by
    cases k <;> exact ⟨_, rfl, by decide, by decide⟩
  obtain ⟨s, hs, hsign, hsblank⟩ := hsymbol
  obtain ⟨c, more, htext, hblank, -⟩ := Condition.exists_head_ruleText hl
  have hoperand := operand?_ruleText hl
  have hgap : ∀ a ∈ [' '], isBlank a = true := by
    intro a ha
    rw [List.mem_singleton.mp ha]
    decide
  have hbefore : Stops isBlank (s :: ' ' :: l.ruleText) := hsblank
  have hafter : Stops isBlank l.ruleText := by
    rw [htext]
    exact hblank
  have hsigns := dropWhile_append_of_stops hgap hbefore
  have hgapBefore := takeWhile_append_of_stops hgap hbefore
  have hliteral := dropWhile_append_of_stops hgap hafter
  have hgapAfter := takeWhile_append_of_stops hgap hafter
  simp only [List.singleton_append] at hsigns hgapBefore hliteral hgapAfter
  simp only [hs, List.singleton_append, comparison?, hsigns, hgapBefore, hliteral, hgapAfter,
    hoperand, if_pos hsign, Option.map_some]

/-! ## Tokens -/

theorem cut_opening (rest : List Char) :
    cut [] ('(' :: rest) = .token opening :: cut [] rest := by
  rw [cut, if_pos rfl]
  exact cut_append [] [_] rest

theorem cut_closing (rest : List Char) :
    cut [] (')' :: rest) = .token closing :: cut [] rest := by
  rw [cut, if_neg (by decide), if_pos rfl]
  exact cut_append [] [_] rest

theorem cut_loose
    {c : Char}
    (hopening : c ≠ '(')
    (hclosing : c ≠ ')')
    (hword : isWord c = false)
    (rest : List Char) :
    cut [] (c :: rest) = .loose c :: cut [] rest := by
  rw [cut, if_neg hopening, if_neg hclosing, if_neg (by simp [hword])]
  exact cut_append [] [_] rest

theorem cut_blank (rest : List Char) :
    cut [] (' ' :: rest) = .loose ' ' :: cut [] rest :=
  cut_loose (by decide) (by decide) rfl rest

theorem cut_blanks_append
    {blanks : List Char}
    (hblanks : ∀ c ∈ blanks, isBlank c = true)
    (rest : List Char) :
    cut [] (blanks ++ rest) = blanks.map .loose ++ cut [] rest := by
  induction blanks with
  | nil => rfl
  | cons c blanks ih =>
      have hc := hblanks c (by simp)
      rw [List.cons_append, cut_loose (ne_of_isBlank hc (by decide)) (ne_of_isBlank hc (by decide))
        (isWord_eq_false_of_isBlank hc), ih fun a ha => hblanks a (List.mem_cons_of_mem _ ha)]
      rfl

/-- A word with a comparison after it is cut off as a condition. -/
theorem cut_condition_append
    {word comparison rest : List Char}
    (hne : word ≠ [])
    (hword : ∀ c ∈ word, isWord c = true)
    (hcut : comparison? (comparison ++ rest) = some (comparison, rest)) :
    cut [] (word ++ (comparison ++ rest)) =
      .token (condition (String.ofList (word ++ comparison))) :: cut [] rest := by
  cases word with
  | nil => exact absurd rfl hne
  | cons c letters =>
      have hstop := stops_isWord_of_comparison? hcut
      have hletters : ∀ a ∈ letters, isWord a = true := fun a ha =>
        hword a (List.mem_cons_of_mem _ ha)
      have hdrop := dropWhile_append_of_stops hletters hstop
      rw [List.cons_append, cut_condition (hword c (by simp)) (by rw [hdrop]; exact hcut),
        takeWhile_append_of_stops hletters hstop]
      exact cut_append [] [_] rest

/-- A word without a comparison after it is a connective or loose. -/
theorem cut_word_append
    {word rest : List Char}
    (hne : word ≠ [])
    (hword : ∀ c ∈ word, isWord c = true)
    (hstop : Stops isWord rest)
    (hnone : comparison? rest = none) :
    cut [] (word ++ rest) =
      match Connective.ofWord? (String.ofList word) with
      | some k => .token (connective k) :: cut [] rest
      | none => word.map .loose ++ cut [] rest := by
  cases word with
  | nil => exact absurd rfl hne
  | cons c letters =>
      have hletters : ∀ a ∈ letters, isWord a = true := fun a ha =>
        hword a (List.mem_cons_of_mem _ ha)
      have hdrop := dropWhile_append_of_stops hletters hstop
      rw [List.cons_append, cut_word (hword c (by simp)) (by rw [hdrop]; exact hnone),
        takeWhile_append_of_stops hletters hstop, hdrop]
      cases Connective.ofWord? (String.ofList (c :: letters)) with
      | some k => exact cut_append [] [_] rest
      | none =>
          simp only
          rw [List.append_nil]
          have hloose := cut_append [] ((c :: letters).map Fragment.loose).reverse rest
          rwa [List.reverse_reverse, List.nil_append] at hloose

theorem cut_connective
    (k : Connective) {rest : List Char}
    (hstop : Stops isWord rest)
    (hnone : comparison? rest = none) :
    cut [] (k.word.toList ++ rest) = .token (connective k) :: cut [] rest := by
  have hk : Connective.ofWord? (String.ofList k.word.toList) = some k := by
    rw [String.ofList_toList]
    exact Connective.ofWord?_eq_some_iff.mpr rfl
  rw [cut_word_append k.word_ne_nil k.isWord_word hstop hnone, hk]

/-- A condition is cut off as a token, all of it, before text that does not go on with it. -/
theorem cut_ruleText_append
    {c : Condition} {rest : List Char}
    (hc : c.Writable)
    (hrest : Parts rest) :
    cut [] (c.ruleText ++ rest) = .token (condition c.shown) :: cut [] rest := by
  have hcut := comparison?_append (comparison?_ruleText c.comparator hc.literal) hrest
  rw [Condition.ruleText, List.append_assoc]
  exact cut_condition_append hc.field_ne_nil hc.isWord_field hcut

end Token
end Eligibility
