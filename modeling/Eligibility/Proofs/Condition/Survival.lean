import Eligibility.Proofs.Condition.Reading
import Mathlib.Tactic.TFAE

/-!
# Conditions that survive being written

The check passes a condition exactly if its rule text reads back as an equal condition.  Equality
may be that of bits or that of numbers, under which the two zeros are equal and what is not a number
is equal to nothing: a text never reads as anything but a finite number, so the two agree on it.

**Results.**
* `Binary64.Equals.isFinite`: what is equal to a finite number is finite;
* `Condition.Writable.of_equals`: what is equal to a condition that a rule text can express is one;
* `Condition.check_tfae_survives`: the check, in terms of writing and reading.
-/

namespace Eligibility

namespace Binary64

/-- Equality of numbers. -/
def Equals (x y : Binary64) : Prop :=
  compare? x y = some .eq

theorem equals_iff
    {x y : Binary64} :
    x.Equals y ↔ x.isNaN = false ∧ y.isNaN = false ∧ x.key = y.key := by
  unfold Equals compare?
  cases x.isNaN <;> cases y.isNaN <;> simp

theorem natAbs_key (x : Binary64) : x.key.natAbs = x.rank := by
  unfold key
  split <;> omega

theorem equals_self_iff
    {x : Binary64} :
    x.Equals x ↔ x.isNaN = false := by
  simp [equals_iff]

/-- Only a finite number is equal to a finite one. -/
theorem Equals.isFinite
    {x y : Binary64}
    (h : x.Equals y)
    (hx : x.isFinite = true) :
    y.isFinite = true := by
  obtain ⟨-, -, hkey⟩ := equals_iff.mp h
  have hrank : x.rank = y.rank := by
    rw [← natAbs_key x, ← natAbs_key y, hkey]
  simpa only [Binary64.isFinite, hrank] using hx

end Binary64

/-- Equality of literals, by value. -/
def Literal.Equals : Literal → Literal → Prop
  | .number x, .number y => x.Equals y
  | .text s, .text t => s = t
  | _, _ => False

theorem Literal.Writable.of_equals
    {l m : Literal}
    (hl : l.Writable)
    (h : l.Equals m) :
    m.Writable := by
  cases l with
  | number x =>
      cases m with
      | number y => exact Binary64.Equals.isFinite h hl
      | text t => exact h.elim
  | text s =>
      cases m with
      | number y => exact h.elim
      | text t =>
          obtain rfl : s = t := h
          exact hl

theorem Literal.Writable.equals_self
    {l : Literal}
    (hl : l.Writable) :
    l.Equals l := by
  cases l with
  | number x => exact Binary64.equals_self_iff.mpr (Binary64.isNaN_of_isFinite hl)
  | text s => exact rfl

namespace Condition

/-- Equality of conditions, by value. -/
structure Equals (c d : Condition) : Prop where
  field : c.field = d.field
  comparator : c.comparator = d.comparator
  literal : c.literal.Equals d.literal

/-- What is equal to a condition that can be written can be written too. -/
theorem Writable.of_equals
    {c d : Condition}
    (hc : c.Writable)
    (h : c.Equals d) :
    d.Writable where
  field_ne_nil := h.field ▸ hc.field_ne_nil
  isWord_field := h.field ▸ hc.isWord_field
  literal := hc.literal.of_equals h.literal

theorem Writable.equals_self
    {c : Condition}
    (hc : c.Writable) :
    c.Equals c :=
  ⟨rfl, rfl, hc.literal.equals_self⟩

/-- **Conditions that survive.**  The check passes exactly the conditions whose rule texts read back
as the same condition, bit for bit, and these are those whose rule texts read back as an equal
one. -/
theorem check_tfae_survives
    (c : Condition) :
    [∃ d, c.check = .ok d,
      ofText c.shown = .ok c,
      ∃ d, ofText c.shown = .ok d ∧ d.Equals c].TFAE := by
  tfae_have 1 → 2
  | ⟨d, hcheck⟩ => ofText_shown (check_eq_ok_iff.mp hcheck).2
  tfae_have 2 → 3
  | hread => ⟨c, hread, (writable_of_ofText hread).equals_self⟩
  tfae_have 3 → 1 := by
    rintro ⟨d, hread, hequals⟩
    have hwritable : c.Writable := (writable_of_ofText hread).of_equals hequals
    exact ⟨c, check_eq_ok_iff.mpr ⟨rfl, hwritable⟩⟩
  tfae_finish

/-- What is not a number reads back as a word. -/
example :
    ofText (⟨"a", .above, .number ⟨0x7FF8000000000000⟩⟩ : Condition).shown =
      .ok ⟨"a", .above, .text "NaN"⟩ := by
  decide +kernel

end Condition
end Eligibility
