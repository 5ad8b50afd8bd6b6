import Eligibility.Proofs.Condition.Coercion

/-!
# Comparison is an order test

A finite number or a text can be the value of a field, and it can be the literal of a condition.
Values and literals read such a content the same way, so it does not matter on which side of a
comparison it stands: comparators are decided by an order of contents.

**Results.**
* `Content.operand_literal`: values and literals with one content are the same operand;
* `Content.holds_iff_compares`: what conditions say of contents is the coercion rule;
* `Content.holds_coherent`: exactly one comparator holds, turning the sides around converts it, and
  every content equals itself.
-/

namespace Eligibility

/-- What can be both a value and a literal: a finite number, or any text. -/
inductive Content
  | number (x : Binary64) (finite : x.isFinite = true)
  | text (s : String)

namespace Content

/-- The value with a content. -/
def value : Content → FieldValue
  | number x _ => .number x
  | text s => .text s

/-- The literal with a content. -/
def literal : Content → Literal
  | number x _ => .number x
  | text s => .text s

/-- Whether a comparator holds of two contents, the first as the value of a field and the second as
the literal of a condition on it. -/
def Holds (field : String) (a : Content) (k : Comparator) (b : Content) : Prop :=
  Condition.verdict (Record.single field a.value) ⟨field, k, b.literal⟩ = .ok true

instance (field : String) (a : Content) (k : Comparator) (b : Content) :
    Decidable (Holds field a k b) :=
  inferInstanceAs (Decidable (_ = _))

theorem isFinite_of_literal
    {a : Content} {y : Binary64}
    (h : a.literal = .number y) :
    y.isFinite = true := by
  cases a with
  | number x finite =>
      cases h
      exact finite
  | text s => cases h

theorem operand_literal (a : Content) : a.literal.operand = a.value.operand := by
  cases a with
  | number x finite =>
      rw [literal, value, Literal.operand_number finite, FieldValue.operand_number finite]
  | text s => rw [literal, value, Literal.operand_text, FieldValue.operand_text]

/-- What conditions say of contents is the coercion rule, since no content is a number that is not
finite. -/
theorem holds_iff_compares
    (field : String) (a : Content) (k : Comparator) (b : Content) :
    Holds field a k b ↔ k.Compares a.value.operand b.value.operand := by
  rw [← operand_literal b, Holds,
    Condition.verdict_eq_ok_true_iff (Record.find?_single field a.value)]
  exact Condition.holdsOf_iff_compares (.inr fun y hy => isFinite_of_literal hy)

theorem holds_converse
    (field : String) (a : Content) (k : Comparator) (b : Content) :
    Holds field b k.converse a ↔ Holds field a k b := by
  rw [holds_iff_compares, holds_iff_compares]
  exact Comparator.compares_converse k _ _

/-- **The comparators are coherent.**  Of two contents exactly one comparator holds.  One is above the
other exactly if the other is below it, equal contents are equal either way around, and every content
equals itself. -/
theorem holds_coherent (field : String) (a b : Content) :
    (∃! k, Holds field a k b) ∧
      (Holds field a .above b ↔ Holds field b .below a) ∧
      (Holds field a .equal b ↔ Holds field b .equal a) ∧
      Holds field a .equal a := by
  refine ⟨?_, (holds_converse field a .above b).symm, (holds_converse field a .equal b).symm, ?_⟩
  · simp only [holds_iff_compares]
    exact Comparator.existsUnique_compares _ _
  · rw [holds_iff_compares]
    exact Comparator.compares_self _

/-- Ten is above nine as a number and below `9%` as a text, and `1e1` is another spelling of it. -/
example :
    Holds "f" (text "10") .above (text "9") ∧
      Holds "f" (text "10") .below (text "9%") ∧
      Holds "f" (text "1e1") .equal (number ⟨0x4024000000000000⟩ (by decide)) := by
  decide +kernel

end Content
end Eligibility
