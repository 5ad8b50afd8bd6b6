import Eligibility.Proofs.Infix.Conservation
import Eligibility.Proofs.Infix.Faults

/-!
# Parentheses that balance

A rule can fail at a closing parenthesis, at a join or at its end, and the first failure is the one
that is reported.  So a rule whose parentheses do not balance may be refused for a join that comes
earlier.  But no other rule is refused for its parentheses.

**Invariant.**  The parentheses that stand open are the opening marks.  Joining leaves them alone, an
opening parenthesis adds one, and a closing one takes the last away.

**Results.**
* `Pushes.balanced_iff`: one token keeps the balance of what is left to read;
* `balanced_of_pushAll`, `pushAll_eq_error_cases`: a run that comes to its end, and one that fails;
* `pushAll_eq_nil_iff`: the runs that leave no formula;
* `ofTokens_balance`: the faults of a rule, in terms of its parentheses.
-/

namespace Eligibility

namespace Token

/-- With so many parentheses open before the tokens, none of these closes more than are open, and
none stays open at the end. -/
structure Balanced (opened : Nat) (ts : List Token) : Prop where
  covered : ∀ before, before <+: ts → before.count .closing ≤ opened + before.count .opening
  settled : opened + ts.count .opening = ts.count .closing

theorem balanced_nil
    {n : Nat} :
    Balanced n [] ↔ n = 0 := by
  constructor
  · intro h
    simpa using h.settled
  · rintro rfl
    exact ⟨fun before hbefore => by simp [List.prefix_nil.mp hbefore], rfl⟩

/-- The first token opens or closes at most one parenthesis, and those after it balance what is open
then. -/
theorem balanced_cons
    {n : Nat} {t : Token} {ts : List Token} :
    Balanced n (t :: ts) ↔
      [t].count .closing ≤ n + [t].count .opening ∧
        Balanced (n + [t].count .opening - [t].count .closing) ts := by
  have hcount (u : Token) (us : List Token) : (t :: us).count u = [t].count u + us.count u := by
    rw [← List.singleton_append, List.count_append]
  constructor
  · rintro ⟨hcovered, hsettled⟩
    have hfirst := hcovered [t] (by simp)
    refine ⟨hfirst, fun before hbefore => ?_, ?_⟩
    · have hlater := hcovered (t :: before) (by simpa using hbefore)
      rw [hcount .closing before, hcount .opening before] at hlater
      omega
    · rw [hcount .closing ts, hcount .opening ts] at hsettled
      omega
  · rintro ⟨hfirst, hcovered, hsettled⟩
    refine ⟨fun before hbefore => ?_, ?_⟩
    · rcases List.prefix_cons_iff.mp hbefore with rfl | ⟨later, rfl, hlater⟩
      · simp
      · have hcount' := hcovered later hlater
        rw [hcount .closing later, hcount .opening later]
        omega
    · rw [hcount .closing ts, hcount .opening ts]
      omega

@[simp] theorem balanced_condition
    {n : Nat} {text : String} {ts : List Token} :
    Balanced n (.condition text :: ts) ↔ Balanced n ts := by
  simp [balanced_cons]

@[simp] theorem balanced_connective
    {n : Nat} {k : Connective} {ts : List Token} :
    Balanced n (.connective k :: ts) ↔ Balanced n ts := by
  simp [balanced_cons]

@[simp] theorem balanced_opening
    {n : Nat} {ts : List Token} :
    Balanced n (.opening :: ts) ↔ Balanced (n + 1) ts := by
  simp [balanced_cons]

@[simp] theorem balanced_closing_succ
    {n : Nat} {ts : List Token} :
    Balanced (n + 1) (.closing :: ts) ↔ Balanced n ts := by
  simp [balanced_cons]

@[simp] theorem not_balanced_closing
    {ts : List Token} :
    ¬ Balanced 0 (.closing :: ts) := by
  simp [balanced_cons]

end Token

/-- A fault of a join or of a condition. -/
def Fault.OutsideParentheses (fault : Fault) : Prop :=
  fault.kind = .invalidRule ∨ fault.kind = .badConditionFormat ∨ fault.kind = .badComparator

theorem Fault.not_outsideParentheses_unbalanced : ¬ Fault.unbalanced.OutsideParentheses := by
  simp [OutsideParentheses, kind]

theorem Fault.not_outsideParentheses_emptyExpression :
    ¬ Fault.emptyExpression.OutsideParentheses := by
  simp [OutsideParentheses, kind]

namespace Formula

open Token

/-- The number of parentheses that stand open. -/
def opened (marks : List Mark) : Nat :=
  marks.count .opening

@[simp] theorem opened_nil : opened [] = 0 := rfl

@[simp] theorem opened_opening (marks : List Mark) :
    opened (.opening :: marks) = opened marks + 1 := by
  simp [opened]

@[simp] theorem opened_waiting
    (k : Connective) (marks : List Mark) :
    opened (.waiting k :: marks) = opened marks := by
  simp [opened]

variable {finished finished' : Finished} {marks marks' : List Mark} {fault : Fault}

/-! ## One token -/

theorem Joins.opened_eq
    {p : Connective → Prop}
    (h : Joins p finished marks finished' marks') :
    opened marks = opened marks' := by
  induction h with
  | stop => rfl
  | join hk hreduce more ih => rw [opened_waiting, ih]

/-- The marks that are open count the parentheses that are still to be closed. -/
theorem Pushes.balanced_iff
    {t : Token}
    (h : Pushes finished marks t finished' marks')
    (ts : List Token) :
    Balanced (opened marks) (t :: ts) ↔ Balanced (opened marks') ts := by
  cases h with
  | condition htext => exact balanced_condition
  | opening => rw [balanced_opening, opened_opening]
  | closing hjoins => rw [hjoins.opened_eq, opened_opening, balanced_closing_succ]
  | connective hjoins hbelow => rw [hjoins.opened_eq, balanced_connective, opened_waiting]

theorem push_eq_error_cases
    {t : Token}
    (h : push finished marks t = .error fault) :
    fault.OutsideParentheses ∨ (fault = .unbalanced ∧ t = .closing ∧ opened marks = 0) := by
  rcases push_eq_error_iff.mp h with ⟨text, -, htext⟩ | ⟨rfl, hclose⟩ | ⟨k, -, hyield⟩
  · exact .inl (.inr (Condition.kind_of_ofText htext))
  · rcases closeGroup_eq_error hclose with hbreaks | ⟨hfault, between, hjoins⟩
    · exact .inl (.inl hbreaks.kind_eq)
    · exact .inr ⟨hfault, rfl, hjoins.opened_eq⟩
  · exact .inl (.inl (yieldTo_eq_error hyield).kind_eq)

/-! ## A whole run -/

/-- A run that comes to its end has closed all parentheses, none of them too early. -/
theorem balanced_of_pushAll
    {ts : List Token}
    (h : pushAll finished marks ts = .ok finished') :
    Balanced (opened marks) ts := by
  induction ts generalizing finished marks with
  | nil => exact balanced_nil.mpr (closeAll_eq_ok_iff.mp h).opened_eq
  | cons t ts ih =>
      obtain ⟨between, marks', hstep, hrest⟩ := pushAll_cons_eq_ok_iff.mp h
      exact (hstep.balanced_iff ts).mpr (ih hrest)

/-- A run fails outside the parentheses, or they are out of balance. -/
theorem pushAll_eq_error_cases
    {ts : List Token}
    (h : pushAll finished marks ts = .error fault) :
    fault.OutsideParentheses ∨ (fault = .unbalanced ∧ ¬ Balanced (opened marks) ts) := by
  induction ts generalizing finished marks with
  | nil =>
      rcases closeAll_eq_error h with hbreaks | ⟨hfault, between, more, hjoins⟩
      · exact .inl (.inl hbreaks.kind_eq)
      · refine .inr ⟨hfault, fun hbalanced => ?_⟩
        have hopen := hjoins.opened_eq
        rw [balanced_nil.mp hbalanced, opened_opening] at hopen
        omega
  | cons t ts ih =>
      rcases pushAll_cons_eq_error_iff.mp h with hpush | ⟨between, marks', hpushes, hrest⟩
      · rcases push_eq_error_cases hpush with houtside | ⟨hfault, rfl, hopen⟩
        · exact .inl houtside
        · rw [hopen]
          exact .inr ⟨hfault, not_balanced_closing⟩
      · rw [hpushes.balanced_iff ts]
        exact ih hrest

/-- Parentheses that balance leave no formula. -/
theorem pushAll_of_parentheses
    {n : Nat} {ts : List Token}
    (hts : ∀ t ∈ ts, t = .opening ∨ t = .closing)
    (h : Balanced n ts) :
    pushAll [] (List.replicate n .opening) ts = .ok [] := by
  induction ts generalizing n with
  | nil => rw [balanced_nil.mp h, pushAll, List.replicate_zero, closeAll]
  | cons t ts ih =>
      have hmore := fun u hu => hts u (List.mem_cons_of_mem t hu)
      rcases hts t List.mem_cons_self with rfl | rfl
      · exact ih hmore (balanced_opening.mp h)
      · cases n with
        | zero => exact absurd h not_balanced_closing
        | succ n => exact ih hmore (balanced_closing_succ.mp h)

/-- Only parentheses leave no formula: a condition and a connective would be found in it. -/
theorem parentheses_of_pushAll
    {ts : List Token}
    (h : pushAll [] [] ts = .ok []) :
    ∀ t ∈ ts, t = .opening ∨ t = .closing := by
  obtain ⟨hconditions, hconnectives⟩ := holds_nil.pushAll h
  rw [List.nil_append] at hconditions hconnectives
  have htexts : ts.filterMap text? = [] := by simpa [conditionsOf] using hconditions
  have hwords : ts.filterMap connective? = [] := by simpa [connectivesOf] using hconnectives
  intro t ht
  cases t with
  | condition text => exact absurd (List.filterMap_eq_nil_iff.mp htexts _ ht) (by simp [text?])
  | opening => exact .inl rfl
  | closing => exact .inr rfl
  | connective k =>
      exact absurd (List.filterMap_eq_nil_iff.mp hwords _ ht) (by simp [connective?])

/-- Only balanced parentheses with nothing else leave no formula. -/
theorem pushAll_eq_nil_iff
    {ts : List Token} :
    pushAll [] [] ts = .ok [] ↔
      (∀ t ∈ ts, t = .opening ∨ t = .closing) ∧ Balanced 0 ts := by
  constructor
  · intro h
    exact ⟨parentheses_of_pushAll h, balanced_of_pushAll h⟩
  · rintro ⟨hts, h⟩
    exact pushAll_of_parentheses hts h

/-! ## Rules -/

theorem pushAll_of_unbalanced
    {ts : List Token}
    (h : ofTokens ts = .error .unbalanced) :
    pushAll [] [] ts = .error .unbalanced := by
  rcases ofTokens_eq_error_cases h with hfault | hpush | ⟨hfault, -, -⟩ | ⟨count, hfault⟩
  · cases hfault
  · exact hpush
  · cases hfault
  · cases hfault

theorem ofTokens_eq_emptyExpression_iff
    {ts : List Token} :
    ofTokens ts = .error .emptyExpression ↔ ts ≠ [] ∧ pushAll [] [] ts = .ok [] := by
  constructor
  · intro h
    rcases ofTokens_eq_error_cases h with hfault | hpush | ⟨-, hrun⟩ | ⟨count, hfault⟩
    · cases hfault
    · -- no run fails with this fault
      rcases pushAll_eq_error_cases hpush with houtside | ⟨hfault, -⟩
      · exact absurd houtside Fault.not_outsideParentheses_emptyExpression
      · cases hfault
    · exact hrun
    · cases hfault
  · rintro ⟨hne, hpush⟩
    cases ts with
    | nil => exact absurd rfl hne
    | cons t ts => simp only [ofTokens, hpush]

/-- **Faults of parentheses.**  A rule is refused for its parentheses only if they do not balance.
If they do not, it is neither read nor refused as empty.  It is refused as empty exactly if it is
made of parentheses alone and these balance. -/
theorem ofTokens_balance (ts : List Token) :
    (ofTokens ts = .error .unbalanced → ¬ Balanced 0 ts) ∧
    (¬ Balanced 0 ts → (∀ f, ofTokens ts ≠ .ok f) ∧ ofTokens ts ≠ .error .emptyExpression) ∧
    (ofTokens ts = .error .emptyExpression ↔
      ts ≠ [] ∧ (∀ t ∈ ts, t = .opening ∨ t = .closing) ∧ Balanced 0 ts) := by
  refine ⟨?_, ?_, by rw [ofTokens_eq_emptyExpression_iff, pushAll_eq_nil_iff]⟩
  · intro h
    rcases pushAll_eq_error_cases (pushAll_of_unbalanced h) with houtside | ⟨-, hbalance⟩
    · exact absurd houtside Fault.not_outsideParentheses_unbalanced
    · exact hbalance
  · intro hbalance
    refine ⟨fun f hf => ?_, fun hempty => ?_⟩
    · obtain ⟨d, hpush⟩ := pushAll_of_ofTokens hf
      exact hbalance (balanced_of_pushAll hpush)
    · have hpush := (ofTokens_eq_emptyExpression_iff.mp hempty).2
      exact hbalance (balanced_of_pushAll hpush)

/-- The second rule is refused for its join, which comes before the parenthesis too many. -/
theorem ofTokens_balance_join_first :
    (ofTokens [.closing, .condition "a = 'x'", .opening] = .error .unbalanced ∧
      ¬ Balanced 0 [.closing, .condition "a = 'x'", .opening]) ∧
    (¬ Balanced 0 [.condition "a = 'x'", .connective .or, .closing] ∧
      ofTokens [.condition "a = 'x'", .connective .or, .closing] =
        .error (.missingOperand .or) ∧
      (∀ f, ofTokens [.condition "a = 'x'", .connective .or, .closing] ≠ .ok f) ∧
      ofTokens [.condition "a = 'x'", .connective .or, .closing] ≠ .error .emptyExpression) ∧
    (ofTokens [.opening, .closing, .opening, .closing] = .error .emptyExpression ∧
      Balanced 0 [.opening, .closing, .opening, .closing]) := by
  have hunbalanced : ofTokens [.closing, .condition "a = 'x'", .opening] = .error .unbalanced := by
    decide +kernel
  have hjoin : ¬ Balanced 0 [.condition "a = 'x'", .connective .or, .closing] := by simp
  have hempty : ofTokens [.opening, .closing, .opening, .closing] = .error .emptyExpression := by
    decide +kernel
  exact ⟨⟨hunbalanced, (ofTokens_balance _).1 hunbalanced⟩,
    ⟨hjoin, by decide +kernel, (ofTokens_balance _).2.1 hjoin⟩,
    hempty, ((ofTokens_balance _).2.2.mp hempty).2.2⟩

end Formula
end Eligibility
