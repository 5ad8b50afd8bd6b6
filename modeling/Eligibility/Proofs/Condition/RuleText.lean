import Eligibility.Proofs.Condition.Spelling
import Eligibility.Proofs.Number.PlainText

/-!
# Conditions in rule texts

A condition that passes the check is written as field, sign and literal with a blank between them,
which is one of its spellings.

**Results.**
* `check_eq_ok_iff`: the conditions that pass the check;
* `spelled_ruleText`: a condition that passes the check is written as a spelling of itself;
* `ofText_shown`: a condition that passes the check reads back as itself.
-/

namespace Eligibility

open Text

/-- Whether a rule text can express the literal. -/
def Literal.Writable : Literal → Prop
  | .text s => '\'' ∉ s.toList
  | .number x => x.isFinite = true

namespace Condition

/-- Whether a rule text can express the condition. -/
structure Writable (c : Condition) : Prop where
  field_ne_nil : c.field.toList ≠ []
  isWord_field : ∀ a ∈ c.field.toList, isWord a = true
  literal : c.literal.Writable

theorem isOneWord_iff
    {s : String} :
    isOneWord s = true ↔ s.toList ≠ [] ∧ ∀ a ∈ s.toList, isWord a = true := by
  simp [isOneWord, String.toList_eq_nil_iff]

/-- The check passes exactly the conditions that a rule text can express, and changes none. -/
theorem check_eq_ok_iff
    {c d : Condition} :
    c.check = .ok d ↔ c = d ∧ c.Writable := by
  unfold check
  by_cases hword : isOneWord c.field = true
  · obtain ⟨hne, hall⟩ := isOneWord_iff.mp hword
    rw [if_neg (by simp [hword])]
    have hwritable : c.Writable ↔ c.literal.Writable :=
      ⟨fun h => h.literal, fun h => ⟨hne, hall, h⟩⟩
    rw [hwritable]
    cases c.literal with
    | text s => by_cases hq : '\'' ∈ s.toList <;> simp [Literal.Writable, hq]
    | number x => by_cases hx : x.isFinite = true <;> simp [Literal.Writable, hx]
  · rw [if_pos (by simp [hword])]
    constructor
    · intro h
      simp at h
    · rintro ⟨-, h⟩
      exact absurd (isOneWord_iff.mpr ⟨h.field_ne_nil, h.isWord_field⟩) hword

theorem ofBare_shown
    {x : Binary64}
    (hx : x.isFinite = true) :
    Literal.ofBare x.shown = .number x := by
  rw [Literal.ofBare, Numeral.finite?_shown hx]

theorem plain_text_ne_nil
    {x : Binary64}
    (hx : x.isFinite = true) :
    Layout.plain.text x ≠ [] := by
  obtain ⟨whole, fraction, htext, hpointed, -⟩ := Layout.exists_pointed_text hx
  rw [htext, Layout.pointed]
  simp [hpointed.whole_ne_nil]

theorem isPlain_of_mem_text
    {x : Binary64} {c : Char}
    (hx : x.isFinite = true)
    (hc : c ∈ Layout.plain.text x) :
    Literal.isPlain c = true := by
  rcases Numeral.mem_text hx c hc with h | rfl | rfl
  · simp [Literal.isPlain, isWord_of_ascii h]
  · rfl
  · rfl

theorem literal_spelled_ruleText
    {l : Literal}
    (hl : l.Writable) :
    Literal.Spelled l.ruleText l := by
  cases l with
  | text s =>
      have hquoted : Literal.Spelled ('\'' :: (s.toList ++ ['\'']))
          (.text (String.ofList s.toList)) := .quoted hl
      rwa [String.ofList_toList] at hquoted
  | number x =>
      have hbare : Literal.Spelled (Layout.plain.text x) (.ofBare x.shown) :=
        .bare (plain_text_ne_nil hl) fun _ => isPlain_of_mem_text hl
      rwa [ofBare_shown hl] at hbare

/-- A literal starts neither with white space nor with a sign. -/
theorem exists_head_ruleText
    {l : Literal}
    (hl : l.Writable) :
    ∃ c rest, l.ruleText = c :: rest ∧ isBlank c = false ∧ isSign c = false :=
  exists_head_of_spelled (literal_spelled_ruleText hl)

/-- What is written of a condition is one of its spellings, with single spaces around the sign. -/
theorem spelled_ruleText
    {c : Condition}
    (h : c.Writable) :
    Spelled c.ruleText c := by
  obtain ⟨field, comparator, literal⟩ := c
  obtain ⟨hne, hword, hliteral⟩ := h
  have hblank : ∀ c ∈ [' '], isBlank c = true := by
    intro c hc
    rw [List.mem_singleton.mp hc]
    rfl
  have hspelled := Spelled.intro (k := comparator) hne hword hblank hblank
    (literal_spelled_ruleText hliteral)
  rwa [String.ofList_toList] at hspelled

/-- A condition that can be written reads back as itself. -/
theorem ofText_shown
    {c : Condition}
    (h : c.Writable) :
    ofText c.shown = .ok c := by
  have hspelled : Spelled c.shown.toList c := by
    rw [shown, String.toList_ofList]
    exact spelled_ruleText h
  exact ofText_of_spelled hspelled

end Condition
end Eligibility
