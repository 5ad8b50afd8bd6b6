import Eligibility.Proofs.Infix.Faults
import Eligibility.Proofs.Token.Reading

/-!
# The conditions of a rule

A rule text is cut into tokens first, and the tokens that are conditions are read later, each from
its own text.  Both steps have their own notion of a condition, and the two agree: whatever is cut
off as a condition is read, as what its spelling says.  So no rule is refused for its conditions.

**Results.**
* `exists_spelled_of_mem`: a condition among the tokens of a text;
* `ofText_eq_error`: a rule text is refused for stray text or for how its tokens stand together;
* `condition_tokens_read`: both for every rule text.
-/

namespace Eligibility
namespace Formula

/-- A condition among the tokens of a text is spelled as one, and read as what it spells. -/
theorem exists_spelled_of_mem
    {strict : Bool} {s text : String} {ts : List Token}
    (h : Token.ofText strict s = .ok ts)
    (hmem : .condition text ∈ ts) :
    ∃ c, Condition.Spelled text.toList c ∧ Condition.ofText text = .ok c := by
  obtain ⟨fs, hcuts, -, rfl, -⟩ := Token.ofText_eq_ok_iff.mp h
  obtain ⟨fragment, hfragment, htoken⟩ := List.mem_filterMap.mp hmem
  cases fragment with
  | loose c => simp [Fragment.token?] at htoken
  | token t =>
      simp only [Fragment.token?, Option.some.injEq] at htoken
      obtain ⟨c, hspelled⟩ := Token.spelled_of_mem_cuts hcuts (htoken ▸ hfragment)
      exact ⟨c, hspelled, Condition.ofText_of_spelled hspelled⟩

/-- No condition is at fault: those that the scanner cuts off all read. -/
theorem ofText_eq_error
    {strict : Bool} {s : String} {fault : Fault}
    (h : ofText strict s = .error fault) :
    (strict = true ∧ ∃ text, fault = .strayText text) ∨ fault.Structural := by
  unfold ofText at h
  cases htokens : Token.ofText strict s with
  | error fault' =>
      simp only [htokens, Except.error.injEq] at h
      subst h
      rcases Token.ofText_eq_error htokens with hstray | rfl
      · exact .inl hstray
      · exact .inr .noTokens
  | ok ts =>
      simp only [htokens] at h
      rcases ofTokens_eq_error h with hstructural | ⟨text, hmem, hfault⟩
      · exact .inr hstructural
      · -- a condition among the tokens is read
        obtain ⟨c, -, hread⟩ := exists_spelled_of_mem htokens hmem
        simp [hread] at hfault

/-- **Agreement on conditions.**  Every condition among the tokens of a rule text is read, with the
field, the comparator and the literal that its text spells.  Hence no rule text is refused for a
condition or a comparator, and no rule text is refused for stray text unless stray text matters. -/
theorem condition_tokens_read
    (strict : Bool) (s : String) :
    (∀ ts text, Token.ofText strict s = .ok ts → .condition text ∈ ts →
      ∃ c, Condition.Spelled text.toList c ∧ Condition.ofText text = .ok c) ∧
    (∀ fault, ofText strict s = .error fault →
      fault.kind ≠ .badConditionFormat ∧ fault.kind ≠ .badComparator ∧
        (strict = false → fault.kind ≠ .unknownToken)) := by
  constructor
  · intro ts text htokens hmem
    exact exists_spelled_of_mem htokens hmem
  · intro fault hfault
    rcases ofText_eq_error hfault with ⟨hstrict, text, rfl⟩ | hstructural
    · refine ⟨by simp [Fault.kind], by simp [Fault.kind], ?_⟩
      intro hlenient
      simp [hlenient] at hstrict
    · rcases hstructural.kind_cases with hkind | hkind | hkind
      all_goals simp [hkind]

/-- The number is cut short before its point; the condition that is left reads, and what fails is the
parenthesis. -/
theorem condition_tokens_read_cut_number :
    (Token.ofText false "f=1.5x)" = .ok [.condition "f=1", .closing] ∧
      ∃ c, Condition.Spelled "f=1".toList c ∧ Condition.ofText "f=1" = .ok c) ∧
    (ofText false "f=1.5x)" = .error .unbalanced ∧
      Fault.unbalanced.kind ≠ .badConditionFormat ∧ Fault.unbalanced.kind ≠ .badComparator ∧
        (false = false → Fault.unbalanced.kind ≠ .unknownToken)) := by
  have htokens : Token.ofText false "f=1.5x)" = .ok [.condition "f=1", .closing] := by
    decide +kernel
  have hfault : ofText false "f=1.5x)" = .error .unbalanced := by
    decide +kernel
  have h := condition_tokens_read false "f=1.5x)"
  exact ⟨⟨htokens, h.1 _ _ htokens (by simp)⟩, hfault, h.2 _ hfault⟩

end Formula
end Eligibility
