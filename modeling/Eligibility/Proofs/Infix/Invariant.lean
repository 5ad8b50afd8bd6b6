import Eligibility.Proofs.Infix.Steps

/-!
# Invariants of the finished formulas

Every token changes the finished formulas in one of two ways only: a condition is put on top, or the
two formulas on top are joined, any number of times.  So what holds of no formulas and is preserved
by both holds of the formulas at the end of every rule that is read.

**Results.**
* `Joins.invariant`: joining repeatedly;
* `Pushes.invariant`, `pushAll_invariant`: one token and a whole run.
-/

namespace Eligibility
namespace Formula

/-- What joining two formulas and adding a condition that was read preserve. -/
structure Invariant (P : Finished → Prop) : Prop where
  reduce : ∀ {k : Connective} {finished finished' : Finished},
    P finished → Formula.reduce k finished = .ok finished' → P finished'
  condition : ∀ {text : String} {c : Condition} {finished : Finished},
    P finished → Condition.ofText text = .ok c → P ((leaf c, 1) :: finished)

variable {P : Finished → Prop}

theorem Joins.invariant
    {p : Connective → Prop} {finished finished' : Finished} {marks marks' : List Mark}
    (hP : Invariant P)
    (h : Joins p finished marks finished' marks')
    (hfinished : P finished) :
    P finished' := by
  induction h with
  | stop => exact hfinished
  | join hk hreduce more ih => exact ih (hP.reduce hfinished hreduce)

/-- One token keeps whatever joining and adding a condition keep. -/
theorem Pushes.invariant
    {finished finished' : Finished} {marks marks' : List Mark} {token : Token}
    (hP : Invariant P)
    (h : Pushes finished marks token finished' marks')
    (hfinished : P finished) :
    P finished' := by
  cases h with
  | condition htext => exact hP.condition hfinished htext
  | opening => exact hfinished
  | closing hjoins => exact hjoins.invariant hP hfinished
  | connective hjoins hbelow => exact hjoins.invariant hP hfinished

/-- A whole run keeps it too, by induction over the tokens. -/
theorem pushAll_invariant
    (hP : Invariant P)
    {finished finished' : Finished} {marks : List Mark} {ts : List Token}
    (h : P finished)
    (hpush : pushAll finished marks ts = .ok finished') :
    P finished' := by
  induction ts generalizing finished marks with
  | nil => exact (closeAll_eq_ok_iff.mp hpush).invariant hP h
  | cons token ts ih =>
      obtain ⟨between, marks', hstep, hrest⟩ := pushAll_cons_eq_ok_iff.mp hpush
      exact ih (hstep.invariant hP h) hrest

end Formula
end Eligibility
