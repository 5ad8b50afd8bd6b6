import Eligibility.Proofs.Infix.Steps
import Mathlib.Tactic.SplitIfs

/-!
# What reading the tokens of a rule fails with

Reading fails in two ways only: the tokens do not stand together as a rule of limited depth, or one
of the conditions among them cannot be read, and then its fault is the fault of the rule.

**Results.**
* `closeGroup_eq_error`, `yieldTo_eq_error`, `closeAll_eq_error`: where the loops break off;
* `structural_of_closeGroup`, `structural_of_yieldTo`, `structural_of_closeAll`: what they fail with;
* `push_eq_error`, `pushAll_eq_error`: one token and a whole run;
* `ofTokens_eq_error`: a rule that is not read.
-/

namespace Eligibility

/-- The faults of how the tokens of a rule stand together. -/
inductive Fault.Structural : Fault → Prop
  | noTokens : Structural .noTokens
  | emptyExpression : Structural .emptyExpression
  | unjoined (count : Nat) : Structural (.unjoined count)
  | missingOperand (k : Connective) : Structural (.missingOperand k)
  | unbalanced : Structural .unbalanced
  | tooDeep (limit : Nat) : Structural (.tooDeep limit)

theorem Fault.Structural.kind_cases
    {fault : Fault}
    (h : fault.Structural) :
    fault.kind = .invalidRule ∨ fault.kind = .emptyExpression ∨ fault.kind = .unbalancedParens := by
  cases h with
  | noTokens => exact .inl rfl
  | emptyExpression => exact .inr (.inl rfl)
  | unjoined count => exact .inl rfl
  | missingOperand k => exact .inl rfl
  | unbalanced => exact .inr (.inr rfl)
  | tooDeep limit => exact .inl rfl

variable {fault : Fault}

theorem Condition.kind_of_ofText
    {text : String}
    (h : Condition.ofText text = .error fault) :
    fault.kind = .badConditionFormat ∨ fault.kind = .badComparator := by
  unfold Condition.ofText at h
  simp only at h
  split at h
  · split at h
    · rw [← Except.error.inj h]
      exact .inl rfl
    · split at h
      · simp at h
      · rename_i signs _ _ _ _ hsymbol
        rw [← Except.error.inj h]
        unfold Comparator.ofSymbol at hsymbol
        split_ifs at hsymbol
        rw [← Except.error.inj hsymbol]
        exact .inr rfl
  · rw [← Except.error.inj h]
    exact .inl rfl

namespace Formula

theorem structural_of_reduce
    {k : Connective} {finished : Finished}
    (h : reduce k finished = .error fault) :
    fault.Structural := by
  unfold reduce at h
  split at h
  · simp only at h
    split at h
    · rw [Except.error.injEq] at h
      exact h ▸ .tooDeep _
    · simp at h
  · rw [Except.error.injEq] at h
    exact h ▸ .missingOperand k

/-! ## Where the loops break off -/

/-- A loop of joins breaks off at a connective that cannot be joined. -/
def BreaksOff
    (p : Connective → Prop) (finished : Finished) (marks : List Mark) (fault : Fault) : Prop :=
  ∃ (k : Connective) (between : Finished) (more : List Mark),
    Joins p finished marks between (.waiting k :: more) ∧ reduce k between = .error fault

variable {p : Connective → Prop} {finished : Finished} {marks : List Mark}

theorem BreaksOff.of_reduce
    {k : Connective}
    (h : reduce k finished = .error fault) :
    BreaksOff p finished (.waiting k :: marks) fault :=
  ⟨k, finished, marks, .stop _ _, h⟩

theorem BreaksOff.join
    {k : Connective} {joined : Finished}
    (hk : p k)
    (hreduce : reduce k finished = .ok joined)
    (h : BreaksOff p joined marks fault) :
    BreaksOff p finished (.waiting k :: marks) fault := by
  obtain ⟨j, between, more, hjoins, herror⟩ := h
  exact ⟨j, between, more, .join hk hreduce hjoins, herror⟩

theorem BreaksOff.structural
    (h : BreaksOff p finished marks fault) :
    fault.Structural := by
  obtain ⟨k, between, more, -, hreduce⟩ := h
  exact structural_of_reduce hreduce

theorem BreaksOff.kind_eq
    (h : BreaksOff p finished marks fault) :
    fault.kind = .invalidRule := by
  obtain ⟨k, between, more, -, hreduce⟩ := h
  unfold reduce at hreduce
  split at hreduce
  · simp only at hreduce
    split at hreduce
    · rw [← Except.error.inj hreduce]
      rfl
    · simp at hreduce
  · rw [← Except.error.inj hreduce]
    rfl

/-- A group is not closed if a join fails or there is no opening parenthesis. -/
theorem closeGroup_eq_error
    (h : closeGroup finished marks = .error fault) :
    BreaksOff (fun _ => True) finished marks fault ∨
      (fault = .unbalanced ∧ ∃ between, Joins (fun _ => True) finished marks between []) := by
  induction marks generalizing finished with
  | nil =>
      simp only [closeGroup, Except.error.injEq] at h
      exact .inr ⟨h.symm, finished, .stop _ _⟩
  | cons mark marks ih =>
      cases mark with
      | opening => simp [closeGroup] at h
      | waiting k =>
          rw [closeGroup] at h
          cases hreduce : reduce k finished with
          | error fault' =>
              simp only [hreduce, Except.error.injEq] at h
              exact .inl (.of_reduce (h ▸ hreduce))
          | ok joined =>
              simp only [hreduce] at h
              rcases ih h with hbreaks | ⟨hfault, between, hjoins⟩
              · exact .inl (hbreaks.join trivial hreduce)
              · exact .inr ⟨hfault, between, .join trivial hreduce hjoins⟩

/-- The loop for a connective breaks off at a join, among those that bind at least as tightly. -/
theorem yieldTo_eq_error
    {incoming : Connective}
    (h : yieldTo incoming finished marks = .error fault) :
    BreaksOff (fun j => incoming.precedence ≤ j.precedence) finished marks fault := by
  induction marks generalizing finished with
  | nil => simp [yieldTo] at h
  | cons mark marks ih =>
      cases mark with
      | opening => simp [yieldTo] at h
      | waiting k =>
          rw [yieldTo] at h
          split at h
          · simp at h
          · rename_i hk
            cases hreduce : reduce k finished with
            | error fault' =>
                simp only [hreduce, Except.error.injEq] at h
                exact .of_reduce (h ▸ hreduce)
            | ok joined =>
                simp only [hreduce] at h
                exact (ih h).join (Nat.le_of_not_lt hk) hreduce

/-- A rule does not end if a join fails or an opening parenthesis is left. -/
theorem closeAll_eq_error
    (h : closeAll finished marks = .error fault) :
    BreaksOff (fun _ => True) finished marks fault ∨
      (fault = .unbalanced ∧
        ∃ between more, Joins (fun _ => True) finished marks between (.opening :: more)) := by
  induction marks generalizing finished with
  | nil => simp [closeAll] at h
  | cons mark marks ih =>
      cases mark with
      | opening =>
          simp only [closeAll, Except.error.injEq] at h
          exact .inr ⟨h.symm, finished, marks, .stop _ _⟩
      | waiting k =>
          rw [closeAll] at h
          cases hreduce : reduce k finished with
          | error fault' =>
              simp only [hreduce, Except.error.injEq] at h
              exact .inl (.of_reduce (h ▸ hreduce))
          | ok joined =>
              simp only [hreduce] at h
              rcases ih h with hbreaks | ⟨hfault, between, more, hjoins⟩
              · exact .inl (hbreaks.join trivial hreduce)
              · exact .inr ⟨hfault, between, more, .join trivial hreduce hjoins⟩

/-! ## What they fail with -/

theorem structural_of_closeGroup
    (h : closeGroup finished marks = .error fault) :
    fault.Structural := by
  rcases closeGroup_eq_error h with hbreaks | ⟨rfl, -⟩
  · exact hbreaks.structural
  · exact .unbalanced

theorem structural_of_yieldTo
    {incoming : Connective}
    (h : yieldTo incoming finished marks = .error fault) :
    fault.Structural :=
  (yieldTo_eq_error h).structural

theorem structural_of_closeAll
    (h : closeAll finished marks = .error fault) :
    fault.Structural := by
  rcases closeAll_eq_error h with hbreaks | ⟨rfl, -⟩
  · exact hbreaks.structural
  · exact .unbalanced

/-- A token fails for how it stands, or as a condition that cannot be read. -/
theorem push_eq_error
    {token : Token}
    (h : push finished marks token = .error fault) :
    fault.Structural ∨ ∃ text, token = .condition text ∧ Condition.ofText text = .error fault := by
  rcases push_eq_error_iff.mp h with hcondition | ⟨-, hclose⟩ | ⟨k, -, hyield⟩
  · exact .inr hcondition
  · exact .inl (structural_of_closeGroup hclose)
  · exact .inl (structural_of_yieldTo hyield)

/-- A run fails for how its tokens stand together, or for a condition that does not read. -/
theorem pushAll_eq_error
    {ts : List Token}
    (h : pushAll finished marks ts = .error fault) :
    fault.Structural ∨ ∃ text, .condition text ∈ ts ∧ Condition.ofText text = .error fault := by
  induction ts generalizing finished marks with
  | nil => exact .inl (structural_of_closeAll h)
  | cons token ts ih =>
      rcases pushAll_cons_eq_error_iff.mp h with hpush | ⟨between, marks', -, hrest⟩
      · rcases push_eq_error hpush with hstructural | ⟨text, rfl, htext⟩
        · exact .inl hstructural
        · exact .inr ⟨text, List.mem_cons_self, htext⟩
      · rcases ih hrest with hstructural | ⟨text, hmem, htext⟩
        · exact .inl hstructural
        · exact .inr ⟨text, List.mem_cons_of_mem _ hmem, htext⟩

/-- A rule that is not read fails in its run, or with what the run has left. -/
theorem ofTokens_eq_error
    {ts : List Token}
    (h : ofTokens ts = .error fault) :
    fault.Structural ∨ ∃ text, .condition text ∈ ts ∧ Condition.ofText text = .error fault := by
  rcases ofTokens_eq_error_cases h with rfl | hpush | ⟨rfl, -, -⟩ | ⟨count, rfl⟩
  · exact .inl .noTokens
  · exact pushAll_eq_error hpush
  · exact .inl .emptyExpression
  · exact .inl (.unjoined count)

end Formula
end Eligibility
