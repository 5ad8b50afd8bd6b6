import Eligibility.Proofs.Condition.Reading
import Eligibility.Proofs.Formula.RuleText

/-!
# The fewest parentheses

Many token sequences spell the same formula, since parentheses leave no node.  Where a phrase is
demanded and the formula holds together less tightly, every spelling has a pair of its own around
that place; everywhere else the rule text has none.  So no spelling has fewer parentheses than the
rule text.

**Results.**
* `count_opening_sideTokens`: the parentheses of a rule text, one side after the other;
* `count_opening_le`: those of every phrase, by induction on the grammar;
* `fewest_parentheses`: the rule text of a formula against all expressions with that formula.
-/

namespace Eligibility
namespace Formula

open Phrase

/-- The pairs of parentheses that a formula must have around it to be a phrase. -/
def enclosure (p : Phrase) (f : Formula) : Nat :=
  if f.phrase.strength < p.strength then 1 else 0

theorem enclosure_le_one (p : Phrase) (f : Formula) : enclosure p f ≤ 1 := by
  unfold enclosure
  split <;> omega

theorem enclosure_mono
    {p q : Phrase}
    (h : p.strength ≤ q.strength)
    (f : Formula) :
    enclosure p f ≤ enclosure q f := by
  unfold enclosure
  split <;> split <;> omega

/-- A formula needs no parentheses to be its own phrase or a looser one. -/
theorem enclosure_eq_zero
    {p : Phrase} {f : Formula}
    (h : p.strength ≤ f.phrase.strength) :
    enclosure p f = 0 :=
  if_neg (Nat.not_lt.mpr h)

/-- One side of a join has its own parentheses, and those around it where it needs them. -/
theorem count_opening_sideTokens
    (parent : Connective) (isRight : Bool) (f : Formula) :
    (sideTokens parent isRight f).count .opening =
      f.tokens.count .opening + enclosure (sidePhrase parent isRight) f := by
  unfold sideTokens enclosure
  by_cases hparens : needsParens parent isRight f = true
  · rw [if_pos hparens, if_pos (needsParens_iff.mp hparens)]
    simp
  · rw [if_neg hparens, if_neg (mt needsParens_iff.mpr hparens), Nat.add_zero]

/-- A phrase has the parentheses of the rule text of its formula, and those around it. -/
theorem count_opening_le
    {p : Phrase} {ts : List Token} {f : Formula}
    (h : Spells p ts f) :
    f.tokens.count .opening + enclosure p f ≤ ts.count .opening := by
  induction h with
  | @condition text c h =>
      have hbare : enclosure operand (leaf c) = 0 := enclosure_eq_zero (Nat.le_refl _)
      simp [hbare, tokens, fragments, Fragment.token?]
  | @group ts f h ih =>
      -- the pair of this rule is the one around the formula, if that needs one
      have hpair := enclosure_le_one operand f
      have hcount : (Token.opening :: (ts ++ [.closing])).count .opening =
          ts.count .opening + 1 := by simp
      omega
  | @single k ts f h ih =>
      have hlooser : (chain k).strength ≤ (side k).strength :=
        Nat.le_of_lt (precedence_lt_strength_side k)
      exact (Nat.add_le_add_left (enclosure_mono hlooser f) _).trans ih
  | @more k ts us f g left right ihl ihr =>
      have hwhole : enclosure (chain k) (join k f g) = 0 := enclosure_eq_zero (Nat.le_refl _)
      have hsides : (ts ++ .connective k :: us).count .opening =
          ts.count .opening + us.count .opening := by simp
      rw [tokens_join, List.count_append, List.count_cons_of_ne (by simp),
        count_opening_sideTokens, count_opening_sideTokens, hwhole, hsides, Nat.add_zero]
      exact Nat.add_le_add ihl ihr

/-- The conditions of a formula that some tokens spell can be written. -/
theorem writable_of_spells
    {p : Phrase} {ts : List Token} {f : Formula}
    (h : Spells p ts f) :
    f.Writable := by
  induction h with
  | condition h => exact writable_leaf.mpr (Condition.writable_of_ofText h)
  | group h ih => exact ih
  | single h ih => exact ih
  | more left right ihl ihr => exact writable_join.mpr ⟨ihl, ihr⟩

/-- **The fewest parentheses.**  The rule text of a formula is cut into tokens that are an
expression with this formula, and every expression with this formula has at least as many opening
parentheses. -/
theorem fewest_parentheses
    {ts : List Token} {f : Formula}
    (h : Spells expression ts f)
    (strict : Bool) :
    ∃ us, Token.ofText strict f.shown = .ok us ∧ Spells expression us f ∧
      us.count .opening ≤ ts.count .opening := by
  have hf := writable_of_spells h
  refine ⟨f.tokens, tokenText_shown strict hf, ?_, ?_⟩
  · exact (spells_tokens hf).weaken (strength_expression_le _)
  · exact (Nat.le_add_right _ _).trans (count_opening_le h)

/-- Of three pairs the rule text keeps the one around a right side with the connective of the
whole. -/
theorem fewest_parentheses_right_side :
    ∃ (ts : List Token) (f : Formula),
      ts = [.opening, .condition "a=x", .closing, .connective .and, .opening, .opening,
        .condition "b = 'y'", .connective .and, .condition "c >1", .closing, .closing] ∧
      f = join .and (leaf ⟨"a", .equal, .text "x"⟩)
        (join .and (leaf ⟨"b", .equal, .text "y"⟩)
          (leaf ⟨"c", .above, .number ⟨0x3FF0000000000000⟩⟩)) ∧
      Spells expression ts f ∧ f.shown = "a = 'x' AND (b = 'y' AND c > 1)" ∧
      ∃ us, Token.ofText false f.shown = .ok us ∧ us.count .opening ≤ ts.count .opening := by
  have ha : Spells operand [.condition "a=x"] (leaf ⟨"a", .equal, .text "x"⟩) :=
    .condition (by decide +kernel)
  have hb : Spells operand [.condition "b = 'y'"] (leaf ⟨"b", .equal, .text "y"⟩) :=
    .condition (by decide +kernel)
  have hc : Spells operand [.condition "c >1"]
      (leaf ⟨"c", .above, .number ⟨0x3FF0000000000000⟩⟩) :=
    .condition (by decide +kernel)
  have hleft := Spells.group (ha.weaken (strength_expression_le _))
  have hinner := Spells.more (Spells.single (k := .and) hb) hc
  have hright := Spells.group (hinner.weaken (strength_expression_le _))
  have hgroup := Spells.group (hright.weaken (strength_expression_le _))
  have hwhole := Spells.more (Spells.single (k := .and) hleft) hgroup
  have hrule := hwhole.weaken (strength_expression_le _)
  obtain ⟨us, hus, -, hcount⟩ := fewest_parentheses hrule false
  exact ⟨_, _, rfl, rfl, hrule, by decide +kernel, us, hus, hcount⟩

end Formula
end Eligibility
