import Eligibility.Formula.Verdict
import Eligibility.Proofs.Number.Order
import Eligibility.Proofs.Text.Bytes

/-!
# Comparing a value with a literal

A value and a literal are compared as numbers if both read as finite numbers, and else as texts.
Values and literals are read apart, and a literal put together by hand may be a number that is not
finite.  Such a number is not taken for a text: beside a value that reads as a number it is compared
as it is, and what is not a number is then neither above nor below nor equal.

**Results.**
* `Comparator.existsUnique_compares`, `Comparator.compares_converse`, `Comparator.compares_self`: the
  rule is that of an order;
* `Condition.holdsOf_iff_compares`: conditions follow the rule unless their literal is not finite;
* `Condition.holdsOf_iff_of_not_isFinite`: what conditions with another literal say of a number;
* `Condition.verdict_coerced`: the verdict of every condition on every record with its field.
-/

namespace Eligibility

open Text

/-- What the comparison of a value or a literal depends on. -/
structure Operand where
  /-- The finite number that the operand reads as, if it does. -/
  number? : Option Binary64
  /-- The operand as text. -/
  text : String

/-- The value as an operand. -/
def FieldValue.operand (value : FieldValue) : Operand :=
  ⟨value.number?, value.plainText⟩

/-- The literal as an operand. -/
def Literal.operand (literal : Literal) : Operand :=
  ⟨literal.number?.filter Binary64.isFinite, literal.plainText⟩

theorem FieldValue.operand_number
    {x : Binary64}
    (h : x.isFinite = true) :
    (FieldValue.number x).operand = ⟨some x, x.shown⟩ := by
  rw [FieldValue.operand, FieldValue.number?, if_pos h, FieldValue.plainText]

theorem Literal.operand_number
    {x : Binary64}
    (h : x.isFinite = true) :
    (Literal.number x).operand = ⟨some x, x.shown⟩ := by
  rw [Literal.operand, Literal.number?, Option.filter_some_pos h, Literal.plainText]

theorem FieldValue.operand_text (s : String) :
    (FieldValue.text s).operand = ⟨Numeral.finite? s, s⟩ := rfl

theorem Literal.operand_text (s : String) :
    (Literal.text s).operand = ⟨Numeral.finite? s, s⟩ := by
  simp [Literal.operand, Literal.number?, Literal.plainText, Numeral.finite?]

/-- The record of one field. -/
def Record.single (field : String) (value : FieldValue) : Record :=
  Keyed.empty.insert field value

@[simp] theorem Record.find?_single
    (field : String) (value : FieldValue) :
    (Record.single field value).find? field = some value := by
  rw [Record.single, Keyed.find?_insert, if_pos rfl]

namespace Comparator

universe u

/-- What a comparator says of two things in an order. -/
def Relates {α : Type u} [LT α] : Comparator → α → α → Prop
  | above, a, b => b < a
  | below, a, b => a < b
  | equal, a, b => a = b

/-- The comparator that says the same of two things in the other order. -/
def converse : Comparator → Comparator
  | above => below
  | below => above
  | equal => equal

/-- The coercion rule: operands that both read as finite numbers are compared by value, others by
the bytes of their texts. -/
def Compares (k : Comparator) (a b : Operand) : Prop :=
  match a.number?, b.number? with
  | some x, some y => k.Relates x.worth y.worth
  | _, _ => k.Relates (bytes a.text) (bytes b.text)

instance {α : Type u} [LT α] [DecidableLT α] [DecidableEq α] (k : Comparator) (a b : α) :
    Decidable (k.Relates a b) :=
  match k with
  | above => inferInstanceAs (Decidable (b < a))
  | below => inferInstanceAs (Decidable (a < b))
  | equal => inferInstanceAs (Decidable (a = b))

instance (k : Comparator) (a b : Operand) : Decidable (k.Compares a b) :=
  match a, b with
  | ⟨some x, _⟩, ⟨some y, _⟩ => inferInstanceAs (Decidable (k.Relates x.worth y.worth))
  | ⟨some _, s⟩, ⟨none, t⟩ => inferInstanceAs (Decidable (k.Relates (bytes s) (bytes t)))
  | ⟨none, s⟩, ⟨_, t⟩ => inferInstanceAs (Decidable (k.Relates (bytes s) (bytes t)))

theorem relates_converse
    {α : Type u} [LT α]
    (k : Comparator) (a b : α) :
    k.converse.Relates b a ↔ k.Relates a b := by
  cases k with
  | above => exact Iff.rfl
  | below => exact Iff.rfl
  | equal => exact eq_comm

theorem relates_bytes_iff
    (k : Comparator) (s t : String) :
    k.Relates (bytes s) (bytes t) ↔ k.Relates s t := by
  cases k with
  | above => exact bytes_lt_iff
  | below => exact bytes_lt_iff
  | equal => exact bytes_inj

theorem existsUnique_holds (o : Ordering) : ∃! k : Comparator, k.holds o = true := by
  cases o with
  | lt => exact ⟨below, rfl, fun k hk => by cases k <;> first | rfl | cases hk⟩
  | eq => exact ⟨equal, rfl, fun k hk => by cases k <;> first | rfl | cases hk⟩
  | gt => exact ⟨above, rfl, fun k hk => by cases k <;> first | rfl | cases hk⟩

section Order

variable {α : Type u} [LinearOrder α]

theorem holds_compare_iff
    (k : Comparator) (a b : α) :
    k.holds (compare a b) = true ↔ k.Relates a b := by
  rcases lt_trichotomy a b with hlt | rfl | hgt
  · rw [compare_lt_iff_lt.mpr hlt]
    cases k <;> simp [holds, Relates, hlt, hlt.ne, hlt.le]
  · rw [compare_eq_iff_eq.mpr rfl]
    cases k <;> simp [holds, Relates]
  · rw [compare_gt_iff_gt.mpr hgt]
    cases k <;> simp [holds, Relates, hgt, hgt.ne', hgt.le]

theorem existsUnique_relates (a b : α) : ∃! k : Comparator, k.Relates a b := by
  simpa only [holds_compare_iff] using existsUnique_holds (compare a b)

end Order

/-- Exactly one comparator holds of two operands, whether they are compared as numbers or as
texts. -/
theorem existsUnique_compares (a b : Operand) : ∃! k : Comparator, k.Compares a b := by
  unfold Compares
  split
  · exact existsUnique_relates _ _
  · simpa only [relates_bytes_iff] using existsUnique_relates a.text b.text

/-- Turning the sides around converts the comparator. -/
theorem compares_converse
    (k : Comparator) (a b : Operand) :
    k.converse.Compares b a ↔ k.Compares a b := by
  unfold Compares
  cases a.number? <;> cases b.number? <;> exact relates_converse k _ _

theorem compares_self (a : Operand) : equal.Compares a a := by
  unfold Compares
  cases a.number? <;> exact rfl

end Comparator

theorem FieldValue.isFinite_of_number?
    {value : FieldValue} {x : Binary64}
    (h : value.number? = some x) :
    x.isFinite = true := by
  cases value with
  | number y =>
      obtain ⟨hy, rfl⟩ : y.isFinite = true ∧ y = x := by simpa [number?] using h
      exact hy
  | text s => exact (Option.filter_eq_some_iff.mp h).2

theorem Literal.isFinite_of_number?
    {literal : Literal} {y : Binary64}
    (hliteral : ∀ z, literal = .number z → z.isFinite = true)
    (h : literal.number? = some y) :
    y.isFinite = true := by
  cases literal with
  | number z =>
      cases h
      exact hliteral y rfl
  | text s => exact (Option.filter_eq_some_iff.mp h).2

namespace Condition

/-- Conditions follow the coercion rule, except where a value that reads as a number meets a literal
that is not finite. -/
theorem holdsOf_iff_compares
    {c : Condition} {value : FieldValue}
    (h : value.number? = none ∨ ∀ y, c.literal = .number y → y.isFinite = true) :
    c.holdsOf value = true ↔ c.comparator.Compares value.operand c.literal.operand := by
  simp only [holdsOf, order?, Comparator.Compares, FieldValue.operand, Literal.operand]
  cases hx : value.number? with
  | none =>
      simp only [Comparator.relates_bytes_iff]
      exact Comparator.holds_compare_iff _ _ _
  | some x =>
      cases hy : c.literal.number? with
      | none =>
          simp only [Option.filter_none, Comparator.relates_bytes_iff]
          exact Comparator.holds_compare_iff _ _ _
      | some y =>
          have hliteral := h.resolve_left (by rw [hx]; exact Option.some_ne_none x)
          have hfinite := Literal.isFinite_of_number? hliteral hy
          simp only [Binary64.compare?_of_isFinite (FieldValue.isFinite_of_number? hx) hfinite,
            Option.filter_some_pos hfinite]
          exact Comparator.holds_compare_iff _ _ _

/-- Beside a literal that is not finite, a number is only above or below infinity. -/
theorem holdsOf_iff_of_not_isFinite
    {c : Condition} {value : FieldValue} {y : Binary64}
    (hvalue : value.number? ≠ none)
    (hliteral : c.literal = .number y)
    (hy : y.isFinite = false) :
    c.holdsOf value = true ↔
      y.isNaN = false ∧ c.comparator = if y.negative then .above else .below := by
  obtain ⟨x, hx⟩ := Option.ne_none_iff_exists'.mp hvalue
  have hfinite := FieldValue.isFinite_of_number? hx
  simp only [holdsOf, order?, hx, hliteral, Literal.number?]
  cases hnan : y.isNaN with
  | true =>
      rw [Binary64.compare?_eq_none_iff.mpr (.inr hnan)]
      simp
  | false =>
      rw [Binary64.compare?_of_isInfinite hfinite (by simp [Binary64.isInfinite, hy, hnan])]
      cases y.negative <;> cases c.comparator <;> simp [Comparator.holds]

theorem verdict_eq_ok_true_iff
    {r : Record} {c : Condition} {value : FieldValue}
    (h : r.find? c.field = some value) :
    c.verdict r = .ok true ↔ c.holdsOf value = true := by
  simp [verdict, h]

theorem existsUnique_holdsOf_iff
    (field : String) (literal : Literal) (value : FieldValue) :
    (∃! k, Condition.holdsOf ⟨field, k, literal⟩ value = true) ↔
      value.number? = none ∨ ∀ y, literal = .number y → y.isNaN = false := by
  by_cases hfinite : value.number? = none ∨ ∀ y, literal = .number y → y.isFinite = true
  · have hnumber : value.number? = none ∨ ∀ y, literal = .number y → y.isNaN = false :=
      hfinite.imp_right fun h y hy => Binary64.isNaN_of_isFinite (h y hy)
    have hk : ∀ k, Condition.holdsOf ⟨field, k, literal⟩ value = true ↔
        k.Compares value.operand literal.operand :=
      fun k => holdsOf_iff_compares (c := ⟨field, k, literal⟩) hfinite
    simp only [hk]
    exact iff_of_true (Comparator.existsUnique_compares _ _) hnumber
  · obtain ⟨hvalue, y, rfl, hy⟩ : value.number? ≠ none ∧
        ∃ y, literal = .number y ∧ y.isFinite = false := by
      simpa using hfinite
    have hk : ∀ k, Condition.holdsOf ⟨field, k, .number y⟩ value = true ↔
        y.isNaN = false ∧ k = if y.negative then .above else .below :=
      fun k => holdsOf_iff_of_not_isFinite hvalue rfl hy
    simp only [hk]
    constructor
    · rintro ⟨_, ⟨hnan, _⟩, _⟩
      exact .inr fun z hz => by cases hz; exact hnan
    · intro h
      have hnan := (h.resolve_left hvalue) y rfl
      exact ⟨_, ⟨hnan, rfl⟩, fun k hk => hk.2⟩

/-- The verdict of a condition on a record with its field: what the coercion rule says, unless a
number that is not finite was put into the condition and the value reads as a number.  Then the two
are compared as numbers, and a condition with what is not a number never holds. -/
theorem verdict_coerced
    {r : Record} {c : Condition} {value : FieldValue}
    (h : r.find? c.field = some value) :
    ∃ holds, c.verdict r = .ok holds ∧
      ((value.number? = none ∨ ∀ y, c.literal = .number y → y.isFinite = true) →
        (holds = true ↔ c.comparator.Compares value.operand c.literal.operand)) ∧
      (value.number? ≠ none → ∀ y, c.literal = .number y → y.isFinite = false →
        (holds = true ↔
          y.isNaN = false ∧ c.comparator = if y.negative then .above else .below)) ∧
      ((∃! k, Condition.verdict r ⟨c.field, k, c.literal⟩ = .ok true) ↔
        value.number? = none ∨ ∀ y, c.literal = .number y → y.isNaN = false) := by
  refine ⟨c.holdsOf value, by rw [verdict, h], holdsOf_iff_compares, ?_, ?_⟩
  · intro hvalue y hliteral hy
    exact holdsOf_iff_of_not_isFinite hvalue hliteral hy
  · have hk : ∀ k, Condition.verdict r ⟨c.field, k, c.literal⟩ = .ok true ↔
        Condition.holdsOf ⟨c.field, k, c.literal⟩ value = true :=
      fun k => verdict_eq_ok_true_iff h
    simp only [hk]
    exact existsUnique_holdsOf_iff c.field c.literal value

/-- A text of digits is compared as a number: 9.50 is below 30. -/
theorem verdict_coerced_digits :
    (Record.single "age" (.text " 9.50 ")).find? "age" = some (.text " 9.50 ") ∧
      Condition.verdict (Record.single "age" (.text " 9.50 "))
        ⟨"age", .below, .number ⟨0x403E000000000000⟩⟩ = .ok true := by
  have h := Record.find?_single "age" (.text " 9.50 ")
  obtain ⟨holds, hverdict, hrule, -⟩ :=
    verdict_coerced (c := ⟨"age", .below, .number ⟨0x403E000000000000⟩⟩) h
  have hfinite : ∀ y, Literal.number ⟨0x403E000000000000⟩ = .number y → y.isFinite = true := by
    rintro y ⟨⟩
    decide
  refine ⟨h, ?_⟩
  rw [hverdict, (hrule (.inr hfinite)).mpr (by decide +kernel)]

/-- The value 5 beside a literal that is not a number: by the rule the text `5` is below the text
`NaN`, but no comparator holds. -/
theorem verdict_beside_nan :
    (∀ k, Condition.verdict (Record.single "f" (.number ⟨0x4014000000000000⟩))
      ⟨"f", k, .number ⟨0x7FF8000000000000⟩⟩ = .ok false) ∧
    (¬ ∀ (r : Record) (c : Condition) (value : FieldValue), r.find? c.field = some value →
      (c.verdict r = .ok true ↔ c.comparator.Compares value.operand c.literal.operand)) ∧
    ¬ ∀ (r : Record) (c : Condition) (value : FieldValue), r.find? c.field = some value →
      ∃! k, Condition.verdict r ⟨c.field, k, c.literal⟩ = .ok true := by
  have hfalse : ∀ k, Condition.verdict (Record.single "f" (.number ⟨0x4014000000000000⟩))
      ⟨"f", k, .number ⟨0x7FF8000000000000⟩⟩ = .ok false := by
    intro k
    cases k <;> decide +kernel
  have hfield := Record.find?_single "f" (.number ⟨0x4014000000000000⟩)
  refine ⟨hfalse, ?_, ?_⟩
  · intro h
    have hrule := h _ ⟨"f", .below, .number ⟨0x7FF8000000000000⟩⟩ _ hfield
    rw [hfalse] at hrule
    exact absurd (hrule.mpr (by decide +kernel)) (by decide)
  · intro h
    obtain ⟨k, hk, -⟩ := h _ ⟨"f", .below, .number ⟨0x7FF8000000000000⟩⟩ _ hfield
    rw [hfalse] at hk
    cases hk

end Condition
end Eligibility
