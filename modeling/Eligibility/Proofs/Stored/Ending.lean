import Eligibility.Proofs.Json.Ending
import Eligibility.Proofs.Stored.Nesting

/-!
# What may follow a stored formula

A stored formula or named rule is a list or an object, and its text is read to the end.  So behind it
white space may follow and nothing else, however deeply what follows nests.

**Results.**
* `MeasuredAs.append_iff`: the documents of a text that has been continued;
* `ofJson_append_eq_ok_iff`: what a loader makes of a text that has been continued;
* `only_space_may_follow`: both loaders of texts.
-/

namespace Eligibility
namespace Stored

open Json

/-! ## Loaders -/

/-- The text nests no more deeply than the limit and is all of a document. -/
def MeasuredAs (limit : Nat) (s : String) (d : Document) : Prop :=
  textNesting s ≤ limit ∧ Document.ofText s = (d, [])

/-- A text that holds a whole container can only be continued with white space. -/
theorem MeasuredAs.append_iff
    {limit : Nat} {s t : String} {d e : Document}
    (h : MeasuredAs limit s d)
    (hd : d.IsContainer) :
    MeasuredAs limit (s ++ t) e ↔ OnlySpace t ∧ e = d := by
  obtain ⟨hle, htext⟩ := h
  rw [MeasuredAs, Document.ofText_append htext hd, Prod.mk.injEq, ofText_eq_nil_iff]
  constructor
  · rintro ⟨-, rfl, ht⟩
    exact ⟨ht, rfl⟩
  · rintro ⟨ht, rfl⟩
    have hlexemes : Lexeme.ofText (s ++ t) = Lexeme.ofText s := by
      rw [Document.lexemes_append htext hd, ofText_eq_nil_iff.mpr ht, List.append_nil]
    have hnesting := textNesting_of_ofText_eq hlexemes (Document.finishes_of_ofText htext).valid
    exact ⟨hnesting.trans_le hle, rfl, ht⟩

/-- A loader that measures a text and then reads a list or an object from all of it. -/
theorem ofJson_append_eq_ok_iff
    {α : Type} {limit : Nat} {ofJson : String → Except Fault α} {read : Document → Except Fault α}
    (hjson : ∀ s v, ofJson s = .ok v ↔ ∃ d, MeasuredAs limit s d ∧ read d = .ok v)
    (hread : ∀ d v, read d = .ok v → d.IsContainer)
    {s t : String} {v w : α}
    (h : ofJson s = .ok v) :
    ofJson (s ++ t) = .ok w ↔ OnlySpace t ∧ w = v := by
  obtain ⟨d, hmeasured, hv⟩ := (hjson s v).mp h
  rw [hjson]
  constructor
  · rintro ⟨e, he, hw⟩
    obtain ⟨ht, rfl⟩ := (hmeasured.append_iff (hread d v hv)).mp he
    exact ⟨ht, Except.ok.inj (hw.symm.trans hv)⟩
  · rintro ⟨ht, rfl⟩
    exact ⟨d, (hmeasured.append_iff (hread d w hv)).mpr ⟨ht, rfl⟩, hv⟩

end Stored

/-! ## Formulas -/

namespace Formula

open Json Stored

theorem isContainer_of_ofNode?
    (d : Document) (f : Formula)
    (h : ofNode? (Node.read? none d) = .ok f) :
    d.IsContainer := by
  cases d with
  | list items closed => trivial
  | object members closed => trivial
  | _ => simp [Node.read?, ofNode?] at h

theorem ofJson_eq_ok_iff_measuredAs
    (s : String) (f : Formula) :
    ofJson s = .ok f ↔
      ∃ d, MeasuredAs maxDepth s d ∧ ofNode? (Node.read? none d) = .ok f := by
  rw [ofJson_eq_ok_iff, Node.ofJson?]
  simp only [MeasuredAs]
  cases Document.ofText s with
  | mk d rest =>
      cases rest with
      | nil => simp [and_assoc]
      | cons l rest => simp [ofNode?]

end Formula

/-! ## Named rules -/

namespace NamedRule

open Json Stored

theorem isContainer_of_read
    (d : Document) (r : NamedRule)
    (h : read none d = .ok r) :
    d.IsContainer := by
  cases d with
  | list items closed => trivial
  | object members closed => trivial
  | _ => simp [read] at h

theorem ofJson_eq_ok_iff_measuredAs
    (s : String) (r : NamedRule) :
    ofJson s = .ok r ↔
      ∃ d, MeasuredAs (Formula.maxDepth + 1) s d ∧ read none d = .ok r := by
  simp only [MeasuredAs, ← Formula.checkNesting_eq_ok_iff]
  rw [ofJson, ofJsonWithin]
  cases checkNesting (textNesting s) (Formula.maxDepth + 1) with
  | error fault => simp
  | ok _ =>
      cases Document.ofText s with
      | mk d rest => cases hread : read none d <;> cases rest <;> simp [hread]

end NamedRule

/-! ## Continued texts -/

namespace Stored

open Json

/-- **Nothing but white space may follow.**  Let a text be loaded as a formula.  Continued by another
text it is loaded if and only if that is white space, and then as the same formula.  So are named
rules. -/
theorem only_space_may_follow
    (s t : String) :
    (∀ f, Formula.ofJson s = .ok f →
      ((∃ g, Formula.ofJson (s ++ t) = .ok g) ↔ OnlySpace t) ∧
        (OnlySpace t → Formula.ofJson (s ++ t) = .ok f)) ∧
      ∀ r, NamedRule.ofJson s = .ok r →
        ((∃ q, NamedRule.ofJson (s ++ t) = .ok q) ↔ OnlySpace t) ∧
          (OnlySpace t → NamedRule.ofJson (s ++ t) = .ok r) := by
  constructor
  · intro f hf
    have hiff (g : Formula) : Formula.ofJson (s ++ t) = .ok g ↔ OnlySpace t ∧ g = f :=
      ofJson_append_eq_ok_iff Formula.ofJson_eq_ok_iff_measuredAs Formula.isContainer_of_ofNode? hf
    simp [hiff]
  · intro r hr
    have hiff (q : NamedRule) : NamedRule.ofJson (s ++ t) = .ok q ↔ OnlySpace t ∧ q = r :=
      ofJson_append_eq_ok_iff NamedRule.ofJson_eq_ok_iff_measuredAs NamedRule.isContainer_of_read hr
    simp [hiff]

/-- Brackets in an ignored member, and nodes in the form of lists; an empty object may not follow. -/
theorem only_space_may_follow_ignored_member :
    ∃ s s' f, s = "\x7b\"n\":[\"]\",\x7b\x7d],\"type\":\"operand\",\"value\":\"a < 'x'\"\x7d" ∧
      s' = "[\"r\",[\"operand\",null,\"a < 'x'\"]]" ∧
      f = Formula.leaf ⟨"a", .below, .text "x"⟩ ∧
      (Formula.ofJson s = .ok f ∧ Formula.ofJson (s ++ " \r\n\t") = .ok f ∧
        ¬ ∃ g, Formula.ofJson (s ++ " \x7b\x7d") = .ok g) ∧
      NamedRule.ofJson s' = .ok ⟨"r", f⟩ ∧ NamedRule.ofJson (s' ++ "\n") = .ok ⟨"r", f⟩ ∧
        ¬ ∃ q, NamedRule.ofJson (s' ++ "]") = .ok q := by
  have hformula (s : String) (f : Formula) (hf : Formula.ofJson s = .ok f) :
      Formula.ofJson s = .ok f ∧ Formula.ofJson (s ++ " \r\n\t") = .ok f ∧
        ¬ ∃ g, Formula.ofJson (s ++ " \x7b\x7d") = .ok g := by
    refine ⟨hf, ((only_space_may_follow s _).1 f hf).2 (by decide +kernel), ?_⟩
    rw [((only_space_may_follow s _).1 f hf).1]
    decide +kernel
  have hrule (s : String) (r : NamedRule) (hr : NamedRule.ofJson s = .ok r) :
      NamedRule.ofJson s = .ok r ∧ NamedRule.ofJson (s ++ "\n") = .ok r ∧
        ¬ ∃ q, NamedRule.ofJson (s ++ "]") = .ok q := by
    refine ⟨hr, ((only_space_may_follow s _).2 r hr).2 (by decide +kernel), ?_⟩
    rw [((only_space_may_follow s _).2 r hr).1]
    decide +kernel
  exact ⟨_, _, _, rfl, rfl, rfl, hformula _ _ (by decide +kernel), hrule _ _ (by decide +kernel)⟩

end Stored
end Eligibility
