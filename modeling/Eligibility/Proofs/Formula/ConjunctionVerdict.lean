import Eligibility.Proofs.Formula.Conjunction
import Eligibility.Proofs.Formula.Evaluation

/-!
# Verdicts of conjunctions

A conjunction is nested to the right and evaluated from the left, so its verdict is that of its
formulas one after the other.  The eager strategy evaluates all of them, and the first fault is the
verdict; the short-circuit strategy stops at the first formula that does not hold.

**Results.**
* `verdict_eager_nested`, `verdict_shortCircuit_nested`: the verdicts under the two strategies;
* `verdict_of_conjunction`: both, for all formulas that are combined.
-/

namespace Eligibility
namespace Formula

/-- The fault in place of a verdict, if there is one. -/
def fault? : Except Fault Bool → Option Fault
  | .ok _ => none
  | .error fault => some fault

/-- Whether a verdict says that the formula holds. -/
def affirmed : Except Fault Bool → Bool
  | .ok value => value
  | .error _ => false

@[simp] theorem fault?_ok (value : Bool) : fault? (.ok value) = none := rfl

@[simp] theorem fault?_error (fault : Fault) : fault? (.error fault) = some fault := rfl

@[simp] theorem affirmed_ok (value : Bool) : affirmed (.ok value) = value := rfl

@[simp] theorem affirmed_error (fault : Fault) : affirmed (.error fault) = false := rfl

/-- The verdict of formulas that are all evaluated: the first fault, or whether all hold. -/
def eagerOfAll (r : Record) (fs : List Formula) : Except Fault Bool :=
  match fs.findSome? fun f => fault? (f.verdict .eager r) with
  | some fault => .error fault
  | none => .ok (fs.all fun f => affirmed (f.verdict .eager r))

/-- The verdict of formulas that are evaluated until one does not hold: the verdict of that one. -/
def shortCircuitOfAll (r : Record) (fs : List Formula) : Except Fault Bool :=
  match fs.find? fun f => !affirmed (f.verdict .shortCircuit r) with
  | some f => f.verdict .shortCircuit r
  | none => .ok true

/-! ## The eager strategy -/

theorem eagerOfAll_singleton
    (r : Record) (f : Formula) :
    eagerOfAll r [f] = f.verdict .eager r := by
  cases h : f.verdict .eager r <;> simp [eagerOfAll, h]

theorem eagerOfAll_cons
    (r : Record) (f : Formula) (fs : List Formula) :
    eagerOfAll r (f :: fs) =
      (f.verdict .eager r).bind fun v => (eagerOfAll r fs).map (v && ·) := by
  cases hf : f.verdict .eager r with
  | error fault => simp [eagerOfAll, hf, Except.bind]
  | ok v =>
      simp only [eagerOfAll, List.findSome?_cons, List.all_cons, hf, fault?_ok, affirmed_ok,
        Except.bind]
      cases fs.findSome? fun g => fault? (g.verdict .eager r) <;> rfl

/-- The eager verdict is the first fault from the left, or whether all formulas hold. -/
theorem verdict_eager_nested
    (r : Record) (first : Formula) (more : List Formula) :
    (nested first more).verdict .eager r = eagerOfAll r (first :: more) := by
  induction more generalizing first with
  | nil => exact (eagerOfAll_singleton r first).symm
  | cons second more ih =>
      rw [nested, verdict_join, eagerOfAll_cons, ← ih second]
      rfl

/-! ## The short-circuit strategy -/

theorem shortCircuitOfAll_singleton
    (r : Record) (f : Formula) :
    shortCircuitOfAll r [f] = f.verdict .shortCircuit r := by
  rcases h : f.verdict .shortCircuit r with fault | (_ | _) <;>
    simp [shortCircuitOfAll, h]

theorem shortCircuitOfAll_cons
    (r : Record) (f : Formula) (fs : List Formula) :
    shortCircuitOfAll r (f :: fs) =
      (f.verdict .shortCircuit r).bind fun v => if v then shortCircuitOfAll r fs else .ok false := by
  rcases h : f.verdict .shortCircuit r with fault | (_ | _) <;>
    simp [shortCircuitOfAll, h, Except.bind]

/-- The short-circuit verdict is that of the first formula that does not hold, be it false or a
fault. -/
theorem verdict_shortCircuit_nested
    (r : Record) (first : Formula) (more : List Formula) :
    (nested first more).verdict .shortCircuit r = shortCircuitOfAll r (first :: more) := by
  induction more generalizing first with
  | nil => exact (shortCircuitOfAll_singleton r first).symm
  | cons second more ih =>
      have hopen : Connective.and.decided? true = none := rfl
      rw [nested, verdict_join, shortCircuitOfAll_cons, ← ih second]
      cases first.verdict .shortCircuit r with
      | error fault => rfl
      | ok v =>
          cases v with
          | false => rfl
          | true => exact settle_shortCircuit_of_open hopen r (nested second more)

/-! ## Combined formulas -/

/-- **Conjunctions.**  Where formulas are combined, the eager verdict of the result is the first
fault among their eager verdicts, and otherwise whether all of them hold.  The short-circuit verdict
of the result is that of the first formula that has a fault or does not hold, and true if there is
none. -/
theorem verdict_of_conjunction
    {fs : List Formula} {f : Formula}
    (h : conjunction fs = .ok f)
    (r : Record) :
    f.verdict .eager r = eagerOfAll r fs ∧ f.verdict .shortCircuit r = shortCircuitOfAll r fs := by
  cases fs with
  | nil => cases h
  | cons first more =>
      rw [conjunction_cons] at h
      split at h
      · rw [Except.ok.injEq] at h
        rw [← h]
        exact ⟨verdict_eager_nested r first more, verdict_shortCircuit_nested r first more⟩
      · cases h

/-- The last condition lacks its field, but the second formula fails before it. -/
theorem verdict_of_conjunction_missing_field :
    ∃ (f : Formula) (r : Record),
      conjunction
        [leaf ⟨"a", .equal, .text "x"⟩,
          join .or (leaf ⟨"b", .equal, .text "x"⟩) (leaf ⟨"c", .equal, .text "x"⟩),
          leaf ⟨"d", .equal, .text "x"⟩] = .ok f ∧
      r = Keyed.ofList [("a", .text "x"), ("b", .text ""), ("c", .text "")] ∧
      f.verdict .eager r = .error (.unknownField "d") ∧
      f.verdict .shortCircuit r = .ok false := by
  have hcombined : conjunction
      [leaf ⟨"a", .equal, .text "x"⟩,
        join .or (leaf ⟨"b", .equal, .text "x"⟩) (leaf ⟨"c", .equal, .text "x"⟩),
        leaf ⟨"d", .equal, .text "x"⟩] =
      .ok (nested (leaf ⟨"a", .equal, .text "x"⟩)
        [join .or (leaf ⟨"b", .equal, .text "x"⟩) (leaf ⟨"c", .equal, .text "x"⟩),
          leaf ⟨"d", .equal, .text "x"⟩]) := by
    rw [conjunction_cons, if_pos]
    simp [nested, depth_join, depth_leaf, maxDepth]
  refine ⟨_, _, hcombined, rfl, ?_⟩
  obtain ⟨heager, hshort⟩ := verdict_of_conjunction hcombined
    (Keyed.ofList [("a", .text "x"), ("b", .text ""), ("c", .text "")])
  rw [heager, hshort]
  constructor <;> decide +kernel

end Formula
end Eligibility
