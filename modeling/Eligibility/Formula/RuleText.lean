import Eligibility.Formula.Basic

/-!
# The rule text of a formula

A formula is written with the fewest parentheses: around a child that binds less tightly than its
parent, and around a right child with the parent's own connective, since connectives lean left.

**Results.**
* `writeBefore_eq`: what is written does not depend on what follows;
* `ruleText_join`: the rule text of a join in terms of those of its two sides.
-/

namespace Eligibility
namespace Formula

/-- Whether the formula needs parentheses below a connective. -/
def needsParens (parent : Connective) (isRight : Bool) : Formula → Bool
  | leaf _ => false
  | join own _ _ =>
    decide (own.precedence < parent.precedence) || (isRight && own.precedence == parent.precedence)

/-- Writes the rule text of a formula before a text. -/
def writeBefore : Formula → List Char → List Char
  | leaf c, rest => c.ruleText ++ rest
  | join k left right, rest =>
    let after :=
      if needsParens k true right then '(' :: right.writeBefore (')' :: rest)
      else right.writeBefore rest
    let between := ' ' :: (k.word.toList ++ ' ' :: after)
    if needsParens k false left then '(' :: left.writeBefore (')' :: between)
    else left.writeBefore between

/-- The rule text of a formula. -/
def ruleText (f : Formula) : List Char :=
  f.writeBefore []

/-- What is written does not depend on the text that it is written before. -/
theorem writeBefore_eq (f : Formula) (rest : List Char) :
    f.writeBefore rest = f.ruleText ++ rest := by
  induction f generalizing rest with
  | leaf c => simp [ruleText, writeBefore]
  | join k left right ihl ihr =>
    simp only [ruleText, writeBefore]
    split <;> split <;> simp [ihl, ihr]

/-- The rule text of a formula below a connective. -/
def sideText (parent : Connective) (isRight : Bool) (f : Formula) : List Char :=
  if needsParens parent isRight f then '(' :: (f.ruleText ++ [')']) else f.ruleText

theorem ruleText_leaf (c : Condition) : (leaf c).ruleText = c.ruleText := by
  simp [ruleText, writeBefore]

/-- A join is written as its two sides, each in parentheses where it needs them, around its word. -/
theorem ruleText_join (k : Connective) (left right : Formula) :
    (join k left right).ruleText =
      sideText k false left ++ ' ' :: (k.word.toList ++ ' ' :: sideText k true right) := by
  simp only [ruleText, writeBefore, sideText]
  split <;> split <;> simp [writeBefore_eq]

/-- The rule text of a formula. -/
def shown (f : Formula) : String :=
  String.ofList f.ruleText

end Formula
end Eligibility
