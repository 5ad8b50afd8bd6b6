import Eligibility.Formula.RuleText
import Eligibility.Proofs.Infix.Reading
import Eligibility.Proofs.Token.Reading

/-!
# Formulas in rule texts

The rule text of a formula is scanned into the tokens that it was written as, with white space alone
between them, and the grammar assigns the formula itself to these tokens: the parentheses that the
text leaves out are those that precedence and leaning left supply.

**Results.**
* `cut_ruleText`: the fragments of a rule text;
* `spells_tokens`: the tokens of a formula spell it;
* `ofText_shown_eq_ok`: the rule text of a formula reads back as the formula.
-/

namespace Eligibility
namespace Formula

open Text Token Phrase

/-- Whether a rule text can express all conditions of the formula. -/
def Writable (f : Formula) : Prop :=
  ∀ c ∈ f.conditions, c.Writable

theorem writable_leaf
    {c : Condition} :
    (leaf c).Writable ↔ c.Writable := by
  simp [Writable, conditions_leaf]

theorem writable_join
    {k : Connective} {left right : Formula} :
    (join k left right).Writable ↔ left.Writable ∧ right.Writable := by
  simp only [Writable, conditions_join, List.mem_append]
  constructor
  · intro h
    exact ⟨fun c hc => h c (.inl hc), fun c hc => h c (.inr hc)⟩
  · rintro ⟨hl, hr⟩ c (hc | hc)
    · exact hl c hc
    · exact hr c hc

theorem writable_of_check
    {f : Formula}
    (h : ∀ c ∈ f.conditions, c.check = .ok c) :
    f.Writable :=
  fun c hc => (Condition.check_eq_ok_iff.mp (h c hc)).2

/-! ## Fragments -/

/-- Fragments between parentheses, if these are needed. -/
def enclosed (parens : Bool) (fs : List Fragment) : List Fragment :=
  if parens then .token .opening :: (fs ++ [.token .closing]) else fs

/-- The fragments that the rule text of a formula is made of. -/
def fragments : Formula → List Fragment
  | leaf c => [.token (.condition c.shown)]
  | join k left right =>
    enclosed (needsParens k false left) left.fragments ++
      .loose ' ' :: .token (.connective k) :: .loose ' ' ::
        enclosed (needsParens k true right) right.fragments

theorem exists_head_sideText
    {f : Formula}
    (h : ∃ c more, f.ruleText = c :: more ∧ isBlank c = false ∧ Condition.isSign c = false)
    (parent : Connective) (isRight : Bool) :
    ∃ c more, sideText parent isRight f = c :: more ∧
      isBlank c = false ∧ Condition.isSign c = false := by
  unfold sideText
  split
  · exact ⟨_, _, rfl, by decide, by decide⟩
  · exact h

/-- A rule text starts neither with white space nor with a sign. -/
theorem exists_head_ruleText
    {f : Formula}
    (hf : f.Writable) :
    ∃ c more, f.ruleText = c :: more ∧ isBlank c = false ∧ Condition.isSign c = false := by
  induction f with
  | leaf c =>
      obtain ⟨hne, hword, -⟩ := writable_leaf.mp hf
      rw [ruleText_leaf, Condition.ruleText]
      cases hname : c.field.toList with
      | nil => exact absurd hname hne
      | cons a name =>
          have ha : isWord a = true := hword a (by simp [hname])
          exact ⟨a, _, rfl, isBlank_of_isWord ha, Condition.isSign_of_isWord ha⟩
  | join k left right ihl ihr =>
      obtain ⟨c, more, htext, hc⟩ := exists_head_sideText (ihl (writable_join.mp hf).1) k false
      rw [ruleText_join, htext, List.cons_append]
      exact ⟨c, _, rfl, hc⟩

theorem cut_sideText
    {f : Formula}
    (h : ∀ rest, Parts rest → cut [] (f.ruleText ++ rest) = f.fragments ++ cut [] rest)
    (parent : Connective) (isRight : Bool) {rest : List Char}
    (hrest : Parts rest) :
    cut [] (sideText parent isRight f ++ rest) =
      enclosed (needsParens parent isRight f) f.fragments ++ cut [] rest := by
  unfold sideText enclosed
  split
  · have hclosing : Parts (')' :: rest) := by
      rw [Parts, stops_cons]
      decide
    calc cut [] ('(' :: (f.ruleText ++ [')']) ++ rest)
        = .token .opening :: cut [] (f.ruleText ++ ')' :: rest) := by
          rw [List.cons_append, List.append_assoc, cut_opening]
          rfl
      _ = .token .opening :: (f.fragments ++ .token .closing :: cut [] rest) := by
          rw [h _ hclosing, cut_closing]
      _ = .token .opening :: (f.fragments ++ [.token .closing]) ++ cut [] rest := by
          simp
  · exact h rest hrest

/-- The rule text of a formula comes apart into its own fragments before text that parts from it. -/
theorem cut_ruleText
    {f : Formula}
    (hf : f.Writable) {rest : List Char}
    (hrest : Parts rest) :
    cut [] (f.ruleText ++ rest) = f.fragments ++ cut [] rest := by
  induction f generalizing rest with
  | leaf c =>
      rw [ruleText_leaf, cut_ruleText_append (writable_leaf.mp hf) hrest]
      rfl
  | join k left right ihl ihr =>
      obtain ⟨hl, hr⟩ := writable_join.mp hf
      obtain ⟨c, more, htext, hblank, hsign⟩ :=
        exists_head_sideText (exists_head_ruleText hr) k true
      have hnone : comparison? (' ' :: (sideText k true right ++ rest)) = none := by
        rw [htext, List.cons_append]
        exact comparison?_eq_none _ hblank hsign
      have hgap (tail : List Char) : Parts (' ' :: tail) := by
        rw [Parts, stops_cons]
        decide
      have hleft := cut_sideText (fun _ => ihl hl) k false
        (hgap (k.word.toList ++ ' ' :: (sideText k true right ++ rest)))
      have hright := cut_sideText (fun _ => ihr hr) k true hrest
      rw [ruleText_join, List.append_assoc, List.cons_append, List.append_assoc, List.cons_append,
        hleft, cut_blank, cut_connective k (hgap _).stops_isWord hnone, cut_blank, hright]
      simp [fragments]

/-! ## White space between tokens -/

theorem mem_enclosed
    {parens : Bool} {fs : List Fragment} {c : Char}
    (h : .loose c ∈ enclosed parens fs) :
    .loose c ∈ fs := by
  unfold enclosed at h
  split at h
  · simpa using h
  · exact h

theorem isBlank_of_mem_fragments
    {f : Formula} {c : Char}
    (h : .loose c ∈ f.fragments) :
    isBlank c = true := by
  induction f with
  | leaf d => simp [fragments] at h
  | join k left right ihl ihr =>
      simp only [fragments, List.mem_append, List.mem_cons, Fragment.loose.injEq, reduceCtorEq,
        false_or] at h
      rcases h with h | rfl | rfl | h
      · exact ihl (mem_enclosed h)
      · decide
      · decide
      · exact ihr (mem_enclosed h)

/-! ## Tokens -/

/-- The tokens that the rule text of a formula is made of. -/
def tokens (f : Formula) : List Token :=
  f.fragments.filterMap Fragment.token?

/-- The tokens of a formula below a connective. -/
def sideTokens (parent : Connective) (isRight : Bool) (f : Formula) : List Token :=
  if needsParens parent isRight f then .opening :: (f.tokens ++ [.closing]) else f.tokens

theorem filterMap_enclosed
    (parent : Connective) (isRight : Bool) (f : Formula) :
    (enclosed (needsParens parent isRight f) f.fragments).filterMap Fragment.token? =
      sideTokens parent isRight f := by
  unfold enclosed sideTokens
  split
  · simp [tokens, Fragment.token?]
  · rfl

theorem tokens_join
    (k : Connective) (left right : Formula) :
    (join k left right).tokens =
      sideTokens k false left ++ .connective k :: sideTokens k true right := by
  simp only [tokens, fragments, List.filterMap_append, List.filterMap_cons, Fragment.token?,
    filterMap_enclosed]

/-- The tightest phrase that the tokens of a formula are. -/
def phrase : Formula → Phrase
  | leaf _ => operand
  | join k _ _ => chain k

/-- The phrase that a connective demands on its left or its right side. -/
def sidePhrase (parent : Connective) : Bool → Phrase
  | false => chain parent
  | true => side parent

/-- Parentheses are needed where the formula holds together less tightly than demanded. -/
theorem needsParens_iff
    {parent : Connective} {isRight : Bool} {f : Formula} :
    needsParens parent isRight f = true ↔
      f.phrase.strength < (sidePhrase parent isRight).strength := by
  cases f with
  | leaf c => exact iff_of_false (by simp [needsParens]) (Nat.not_lt.mpr (strength_le_operand _))
  | join own left right =>
      simp only [needsParens, phrase]
      cases own <;> cases parent <;> cases isRight <;> decide

/-- Below a connective a formula is the phrase demanded there, in parentheses or without. -/
theorem spells_sideTokens
    {f : Formula}
    (h : Spells f.phrase f.tokens f)
    (parent : Connective) (isRight : Bool) :
    Spells (sidePhrase parent isRight) (sideTokens parent isRight f) f := by
  unfold sideTokens
  split
  · have hexpression : Spells expression f.tokens f := h.weaken (strength_expression_le _)
    exact (Spells.group hexpression).weaken (strength_le_operand _)
  · rename_i hparens
    rw [needsParens_iff, Nat.not_lt] at hparens
    exact h.weaken hparens

/-- The grammar derives a formula from its own tokens. -/
theorem spells_tokens
    {f : Formula}
    (hf : f.Writable) :
    Spells f.phrase f.tokens f := by
  induction f with
  | leaf c => exact Spells.condition (Condition.ofText_shown (writable_leaf.mp hf))
  | join k left right ihl ihr =>
      obtain ⟨hl, hr⟩ := writable_join.mp hf
      rw [tokens_join]
      exact Spells.more (spells_sideTokens (ihl hl) k false) (spells_sideTokens (ihr hr) k true)

/-! ## Reading back -/

theorem cuts_shown
    {f : Formula}
    (hf : f.Writable) :
    Cuts f.shown.toList f.fragments := by
  have hcut := cut_ruleText hf (stops_nil extendsNumber)
  rw [List.append_nil, cut, List.reverse_nil, List.append_nil] at hcut
  rw [shown, String.toList_ofList]
  exact cuts_iff.mpr hcut

theorem tokenText_shown
    (strict : Bool) {f : Formula}
    (hf : f.Writable) :
    Token.ofText strict f.shown = .ok f.tokens :=
  Token.ofText_eq_ok_iff.mpr
    ⟨f.fragments, cuts_shown hf, fun _ _ => isBlank_of_mem_fragments, rfl,
      (spells_tokens hf).ne_nil⟩

/-- A formula whose conditions all pass the check, and which is no deeper than what is read, is
what its rule text reads back as, whether loose text is dropped or refused. -/
theorem ofText_shown_eq_ok
    (strict : Bool) {f : Formula}
    (hdepth : f.depth ≤ maxDepth)
    (hconditions : ∀ c ∈ f.conditions, c.check = .ok c) :
    ofText strict f.shown = .ok f := by
  have hf := writable_of_check hconditions
  have hspells : Spells expression f.tokens f :=
    (spells_tokens hf).weaken (strength_expression_le _)
  rw [ofText, tokenText_shown strict hf]
  exact (ofTokens_of_spells hspells).trans (if_pos hdepth)

/-- Words of connectives as fields and in quotes, a field of digits, and negative zero. -/
theorem ofText_shown_connective_words :
    ofText true "(AND = ') OR (' OR 007 > -0) AND OR < 'a AND\n'" =
      .ok (join .and
        (join .or (leaf ⟨"AND", .equal, .text ") OR ("⟩)
          (leaf ⟨"007", .above, .number ⟨0x8000000000000000⟩⟩))
        (leaf ⟨"OR", .below, .text "a AND\n"⟩)) := by
  have hshown : (join .and
      (join .or (leaf ⟨"AND", .equal, .text ") OR ("⟩)
        (leaf ⟨"007", .above, .number ⟨0x8000000000000000⟩⟩))
      (leaf ⟨"OR", .below, .text "a AND\n"⟩)).shown =
        "(AND = ') OR (' OR 007 > -0) AND OR < 'a AND\n'" := by
    decide +kernel
  rw [← hshown]
  refine ofText_shown_eq_ok true ?_ ?_
  · simp [depth_join, depth_leaf, maxDepth]
  · simp only [conditions_join, conditions_leaf, List.cons_append, List.nil_append,
      List.forall_mem_cons, List.not_mem_nil, false_implies, implies_true, and_true]
    decide +kernel

end Formula
end Eligibility
