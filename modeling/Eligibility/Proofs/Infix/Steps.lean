import Eligibility.Formula.Infix

/-!
# What one token does to the stacks

The reader of rules joins formulas in three loops: down to a connective that binds less tightly,
down to an opening parenthesis, and down to the end.  The loops join alike and differ in where they
stop.  So each is described by what it has joined and by what is on top where it has stopped, and a
proof about all three is one induction on the connectives that have been joined.

**Results.**
* `yieldTo_eq_ok_iff`, `closeGroup_eq_ok_iff`, `closeAll_eq_ok_iff`: where the loops stop;
* `push_eq_ok_iff`: the four things that a token can do;
* `push_eq_error_iff`: the three things that a token can fail with;
* `pushAll_cons_eq_ok_iff`, `pushAll_cons_eq_error_iff`: a run, token by token;
* `pushAll_of_ofTokens`, `ofTokens_eq_error_cases`: what a rule makes of its run.
-/

namespace Eligibility
namespace Formula

/-- Whether no connective of this strength or more waits on top. -/
def Below (strength : Nat) (marks : List Mark) : Prop :=
  ∀ k more, marks = .waiting k :: more → k.precedence < strength

theorem below_nil (strength : Nat) : Below strength [] := by
  intro k more h
  simp at h

theorem below_opening
    (strength : Nat) (marks : List Mark) :
    Below strength (.opening :: marks) := by
  intro k more h
  simp at h

theorem below_waiting
    {strength : Nat} {k : Connective}
    (h : k.precedence < strength)
    (marks : List Mark) :
    Below strength (.waiting k :: marks) := by
  intro j more hj
  simp only [List.cons.injEq, Mark.waiting.injEq] at hj
  rw [← hj.1]
  exact h

theorem Below.mono
    {m n : Nat} {marks : List Mark}
    (h : Below m marks)
    (hmn : m ≤ n) :
    Below n marks :=
  fun k more hk => Nat.lt_of_lt_of_le (h k more hk) hmn

/-- The stacks after some of the connectives that wait on top, all of a class, have been joined. -/
inductive Joins (p : Connective → Prop) : Finished → List Mark → Finished → List Mark → Prop
  | stop (finished : Finished) (marks : List Mark) : Joins p finished marks finished marks
  | join {k : Connective} {finished joined finished' : Finished} {marks marks' : List Mark}
      (hk : p k)
      (hreduce : reduce k finished = .ok joined)
      (more : Joins p joined marks finished' marks') :
      Joins p finished (.waiting k :: marks) finished' marks'

/-- What a token does to the stacks. -/
inductive Pushes : Finished → List Mark → Token → Finished → List Mark → Prop
  | condition {text : String} {c : Condition} {finished : Finished} {marks : List Mark}
      (h : Condition.ofText text = .ok c) :
      Pushes finished marks (.condition text) ((leaf c, 1) :: finished) marks
  | opening (finished : Finished) (marks : List Mark) :
      Pushes finished marks .opening finished (.opening :: marks)
  | closing {finished finished' : Finished} {marks marks' : List Mark}
      (h : Joins (fun _ => True) finished marks finished' (.opening :: marks')) :
      Pushes finished marks .closing finished' marks'
  | connective {k : Connective} {finished finished' : Finished} {marks marks' : List Mark}
      (h : Joins (fun j => k.precedence ≤ j.precedence) finished marks finished' marks')
      (hbelow : Below k.precedence marks') :
      Pushes finished marks (.connective k) finished' (.waiting k :: marks')

variable {p : Connective → Prop} {finished finished' : Finished} {marks marks' : List Mark}

/-! ## Loops -/

theorem joins_nil_iff :
    Joins p finished [] finished' marks' ↔ finished = finished' ∧ [] = marks' := by
  constructor
  · intro h
    cases h with
    | stop => exact ⟨rfl, rfl⟩
  · rintro ⟨rfl, rfl⟩
    exact .stop _ _

theorem joins_opening_iff :
    Joins p finished (.opening :: marks) finished' marks' ↔
      finished = finished' ∧ .opening :: marks = marks' := by
  constructor
  · intro h
    cases h with
    | stop => exact ⟨rfl, rfl⟩
  · rintro ⟨rfl, rfl⟩
    exact .stop _ _

theorem joins_waiting_iff
    {k : Connective} :
    Joins p finished (.waiting k :: marks) finished' marks' ↔
      (finished = finished' ∧ .waiting k :: marks = marks') ∨
        (p k ∧ ∃ joined, reduce k finished = .ok joined ∧
          Joins p joined marks finished' marks') := by
  constructor
  · intro h
    cases h with
    | stop => exact .inl ⟨rfl, rfl⟩
    | join hk hreduce more => exact .inr ⟨hk, _, hreduce, more⟩
  · rintro (⟨rfl, rfl⟩ | ⟨hk, joined, hreduce, more⟩)
    · exact .stop _ _
    · exact .join hk hreduce more

/-- A group is closed by joining everything that waits down to its opening parenthesis. -/
theorem closeGroup_eq_ok_iff :
    closeGroup finished marks = .ok (finished', marks') ↔
      Joins (fun _ => True) finished marks finished' (.opening :: marks') := by
  induction marks generalizing finished with
  | nil => simp [closeGroup, joins_nil_iff]
  | cons mark marks ih =>
      cases mark with
      | opening => simp [closeGroup, joins_opening_iff]
      | waiting k =>
          rw [closeGroup, joins_waiting_iff]
          cases reduce k finished with
          | error fault => simp
          | ok joined => simp [ih]

/-- The end of a rule joins everything that waits. -/
theorem closeAll_eq_ok_iff :
    closeAll finished marks = .ok finished' ↔
      Joins (fun _ => True) finished marks finished' [] := by
  induction marks generalizing finished with
  | nil => simp [closeAll, joins_nil_iff]
  | cons mark marks ih =>
      cases mark with
      | opening => simp [closeAll, joins_opening_iff]
      | waiting k =>
          rw [closeAll, joins_waiting_iff]
          cases reduce k finished with
          | error fault => simp
          | ok joined => simp [ih]

/-- A connective joins what binds at least as tightly, down to what does not. -/
theorem yieldTo_eq_ok_iff
    {k : Connective} :
    yieldTo k finished marks = .ok (finished', marks') ↔
      Joins (fun j => k.precedence ≤ j.precedence) finished marks finished' marks' ∧
        Below k.precedence marks' := by
  induction marks generalizing finished with
  | nil =>
      simp only [yieldTo, joins_nil_iff, Except.ok.injEq, Prod.mk.injEq]
      constructor
      · rintro ⟨rfl, rfl⟩
        exact ⟨⟨rfl, rfl⟩, below_nil _⟩
      · exact fun h => h.1
  | cons mark marks ih =>
      cases mark with
      | opening =>
          simp only [yieldTo, joins_opening_iff, Except.ok.injEq, Prod.mk.injEq]
          constructor
          · rintro ⟨rfl, rfl⟩
            exact ⟨⟨rfl, rfl⟩, below_opening _ _⟩
          · exact fun h => h.1
      | waiting j =>
          rw [yieldTo, joins_waiting_iff]
          by_cases hj : j.precedence < k.precedence
          · rw [if_pos hj, Except.ok.injEq, Prod.mk.injEq]
            constructor
            · rintro ⟨rfl, rfl⟩
              exact ⟨.inl ⟨rfl, rfl⟩, below_waiting hj _⟩
            · rintro ⟨h | ⟨hk, -⟩, -⟩
              · exact h
              · omega
          · have hk : k.precedence ≤ j.precedence := Nat.le_of_not_lt hj
            have hstop : .waiting j :: marks = marks' → ¬ Below k.precedence marks' := by
              rintro rfl hbelow
              exact hj (hbelow j marks rfl)
            rw [if_neg hj]
            cases reduce j finished with
            | error fault =>
                constructor
                · simp
                · rintro ⟨h | ⟨-, joined, hreduce, -⟩, hbelow⟩
                  · exact absurd hbelow (hstop h.2)
                  · simp at hreduce
            | ok joined =>
                simp only [ih, Except.ok.injEq]
                constructor
                · rintro ⟨hjoins, hbelow⟩
                  exact ⟨.inr ⟨hk, joined, rfl, hjoins⟩, hbelow⟩
                · rintro ⟨h | ⟨-, joined', rfl, hjoins⟩, hbelow⟩
                  · exact absurd hbelow (hstop h.2)
                  · exact ⟨hjoins, hbelow⟩

/-! ## Tokens -/

/-- A token does one of four things. -/
theorem push_eq_ok_iff
    {token : Token} :
    push finished marks token = .ok (finished', marks') ↔
      Pushes finished marks token finished' marks' := by
  constructor
  · intro h
    cases token with
    | condition text =>
        rw [push] at h
        cases htext : Condition.ofText text with
        | error fault => simp [htext] at h
        | ok c =>
            simp only [htext, Except.ok.injEq, Prod.mk.injEq] at h
            obtain ⟨rfl, rfl⟩ := h
            exact .condition htext
    | opening =>
        simp only [push, Except.ok.injEq, Prod.mk.injEq] at h
        obtain ⟨rfl, rfl⟩ := h
        exact .opening _ _
    | closing => exact .closing (closeGroup_eq_ok_iff.mp h)
    | connective k =>
        rw [push] at h
        cases hyield : yieldTo k finished marks with
        | error fault => simp [hyield] at h
        | ok s =>
            simp only [hyield, Except.ok.injEq, Prod.mk.injEq] at h
            obtain ⟨rfl, rfl⟩ := h
            obtain ⟨hjoins, hbelow⟩ := yieldTo_eq_ok_iff.mp hyield
            exact .connective hjoins hbelow
  · intro h
    cases h with
    | condition htext => simp only [push, htext]
    | opening => rfl
    | closing hjoins => exact closeGroup_eq_ok_iff.mpr hjoins
    | connective hjoins hbelow =>
        simp only [push, yieldTo_eq_ok_iff.mpr ⟨hjoins, hbelow⟩]

/-- A token fails as a condition that cannot be read, or with the joins that it asks for. -/
theorem push_eq_error_iff
    {token : Token} {fault : Fault} :
    push finished marks token = .error fault ↔
      (∃ text, token = .condition text ∧ Condition.ofText text = .error fault) ∨
      (token = .closing ∧ closeGroup finished marks = .error fault) ∨
      ∃ k, token = .connective k ∧ yieldTo k finished marks = .error fault := by
  cases token with
  | condition text =>
      rw [push]
      cases htext : Condition.ofText text <;> simp [htext]
  | opening => simp [push]
  | closing => simp [push]
  | connective k =>
      rw [push]
      cases hyield : yieldTo k finished marks <;> simp [hyield]

/-- A run is one step and the run after it. -/
theorem pushAll_cons_eq_ok_iff
    {token : Token} {ts : List Token} :
    pushAll finished marks (token :: ts) = .ok finished' ↔
      ∃ between marks', Pushes finished marks token between marks' ∧
        pushAll between marks' ts = .ok finished' := by
  rw [pushAll]
  constructor
  · intro h
    cases hpush : push finished marks token with
    | error fault => simp [hpush] at h
    | ok s =>
        simp only [hpush] at h
        exact ⟨s.1, s.2, push_eq_ok_iff.mp hpush, h⟩
  · rintro ⟨between, marks', hpush, h⟩
    rw [push_eq_ok_iff.mpr hpush]
    exact h

/-- A run fails at its first token, or after it. -/
theorem pushAll_cons_eq_error_iff
    {token : Token} {ts : List Token} {fault : Fault} :
    pushAll finished marks (token :: ts) = .error fault ↔
      push finished marks token = .error fault ∨
      ∃ between marks', Pushes finished marks token between marks' ∧
        pushAll between marks' ts = .error fault := by
  rw [pushAll]
  constructor
  · intro h
    cases hpush : push finished marks token with
    | error fault' =>
        simp only [hpush, Except.error.injEq] at h
        exact .inl (congrArg Except.error h)
    | ok s =>
        simp only [hpush] at h
        exact .inr ⟨s.1, s.2, push_eq_ok_iff.mp hpush, h⟩
  · rintro (hpush | ⟨between, marks', hpush, h⟩)
    · rw [hpush]
    · rw [push_eq_ok_iff.mpr hpush]
      exact h

/-! ## A rule -/

variable {ts : List Token}

/-- A rule is read if its run leaves one formula. -/
theorem pushAll_of_ofTokens
    {f : Formula}
    (h : ofTokens ts = .ok f) :
    ∃ d, pushAll [] [] ts = .ok [(f, d)] := by
  unfold ofTokens at h
  split at h
  · simp at h
  · split at h
    · simp at h
    · simp at h
    · rename_i g d hpush
      rw [Except.ok.injEq] at h
      subst h
      exact ⟨d, hpush⟩
    · simp at h

/-- A rule fails for want of tokens, with its run, or for the number of formulas that are left. -/
theorem ofTokens_eq_error_cases
    {fault : Fault}
    (h : ofTokens ts = .error fault) :
    fault = .noTokens ∨ pushAll [] [] ts = .error fault ∨
      (fault = .emptyExpression ∧ ts ≠ [] ∧ pushAll [] [] ts = .ok []) ∨
      ∃ count, fault = .unjoined count := by
  unfold ofTokens at h
  split at h
  · exact .inl (Except.error.inj h).symm
  · rename_i hne
    split at h
    · rename_i hpush
      exact .inr (.inl (Except.error.inj h ▸ hpush))
    · rename_i hpush
      exact .inr (.inr (.inl ⟨(Except.error.inj h).symm, hne, hpush⟩))
    · simp at h
    · exact .inr (.inr (.inr ⟨_, (Except.error.inj h).symm⟩))

end Formula
end Eligibility
