import Eligibility.Formula.Conjunction
import Eligibility.Proofs.Formula.Storable
import Mathlib.Data.Nat.PSub

/-!
# Conjunctions

A conjunction of several formulas is the first joined with the conjunction of the others.  Its depth
is measured from the formulas alone and comes out exactly, so a conjunction is built if and only if
it is no deeper than the limit.

**Results.**
* `conjunction_cons`: the conjunction of one formula or more, within the limit;
* `conjunctionDepth_eq`: the depth that is measured beforehand is that of the result;
* `storable_of_conjunction`: storable formulas are combined into a storable one;
* `conjunction_exact`: what becomes of every list of formulas.
-/

namespace Eligibility
namespace Formula

/-- The formula `A AND (B AND (C AND D))` of a first formula and those after it. -/
def nested (first : Formula) : List Formula → Formula
  | [] => first
  | second :: more => join .and first (nested second more)

theorem conjoin_append
    (earlier : List Formula) (first last : Formula) :
    conjoin (earlier ++ [first]) last = join .and first (conjoin earlier last) := by
  rw [conjoin, List.foldl_append]
  rfl

/-- Joining from the last formula back to the first one nests them to the right. -/
theorem exists_reverse_eq
    (first : Formula) (more : List Formula) :
    ∃ last earlier, (first :: more).reverse = last :: earlier ∧
      conjoin earlier last = nested first more := by
  induction more generalizing first with
  | nil => exact ⟨first, [], rfl, rfl⟩
  | cons second more ih =>
      obtain ⟨last, earlier, hreverse, hjoined⟩ := ih second
      refine ⟨last, earlier ++ [first], ?_, ?_⟩
      · rw [List.reverse_cons, hreverse, List.cons_append]
      · rw [conjoin_append, hjoined, nested]

/-! ## Depth -/

/-- A conjunction that starts at a position lies that many levels below the whole. -/
theorem conjunctionDepth_eq
    (position : Nat) (first : Formula) (more : List Formula) :
    conjunctionDepth (position + (first :: more).length) position (first :: more) =
      (nested first more).depth + position := by
  induction more generalizing position first with
  | nil =>
      simp only [conjunctionDepth, nested, List.length_cons, List.length_nil]
      omega
  | cons second more ih =>
      have hrest := ih (position + 1) second
      rw [Nat.add_assoc, Nat.add_comm 1] at hrest
      rw [nested, depth_join, conjunctionDepth, List.length_cons, hrest, List.length_cons]
      omega

/-- The forecast of the depth is exact: formulas are combined if and only if the result is within
the limit. -/
theorem conjunction_cons
    (first : Formula) (more : List Formula) :
    conjunction (first :: more) =
      if (nested first more).depth ≤ maxDepth then .ok (nested first more)
      else .error (.conjunctionTooDeep (first :: more).length maxDepth) := by
  obtain ⟨last, earlier, hreverse, hjoined⟩ := exists_reverse_eq first more
  have hdepth := conjunctionDepth_eq 0 first more
  rw [Nat.zero_add, Nat.add_zero] at hdepth
  simp only [conjunction, hreverse, hjoined, hdepth, ← Nat.not_le, ite_not]

/-- The depth that is measured beforehand, with a subtraction that has no result below zero. -/
def checkedDepth? (count position : Nat) : List Formula → Option Nat
  | [] => some 0
  | f :: more =>
    (count.psub 1).bind fun above =>
      (checkedDepth? count (position + 1) more).map (max (min (position + 1) above + f.depth))

theorem checkedDepth?_eq
    {count : Nat}
    (hcount : 1 ≤ count)
    (position : Nat) (fs : List Formula) :
    checkedDepth? count position fs = some (conjunctionDepth count position fs) := by
  induction fs generalizing position with
  | nil => rfl
  | cons f more ih =>
      rw [checkedDepth?, Nat.psub_eq_sub hcount, ih, conjunctionDepth]
      rfl

/-! ## Storable conjunctions -/

theorem writable_nested
    {first : Formula} {more : List Formula}
    (h : ∀ f ∈ first :: more, f.Writable) :
    (nested first more).Writable := by
  induction more generalizing first with
  | nil => exact h first (by simp)
  | cons second more ih =>
      rw [List.forall_mem_cons] at h
      exact writable_join.mpr ⟨h.1, ih h.2⟩

/-- The conjunction has no conditions but those of its formulas. -/
theorem storable_of_conjunction
    {fs : List Formula} {f : Formula}
    (hfs : ∀ g ∈ fs, g.Storable)
    (h : conjunction fs = .ok f) :
    f.Storable := by
  cases fs with
  | nil => cases h
  | cons first more =>
      rw [conjunction_cons] at h
      split at h
      · rename_i hdepth
        rw [Except.ok.injEq] at h
        rw [← h]
        exact storable_iff.mpr
          ⟨hdepth, writable_nested fun g hg => (storable_iff.mp (hfs g hg)).2⟩
      · cases h

/-! ## Every list of formulas -/

/-- **Combining.**  No formulas make an empty rule set.  For one formula or more the depth that is
measured beforehand is that of the nested conjunction, which is handed out exactly if it is no
deeper than the limit, and otherwise refused as an invalid rule.  The subtraction in the measure
always has a result. -/
theorem conjunction_exact :
    conjunction [] = .error .emptyRuleSet ∧
    (∀ first more,
      conjunctionDepth (first :: more).length 0 (first :: more) = (nested first more).depth ∧
      (conjunction (first :: more) = .ok (nested first more) ↔
        (nested first more).depth ≤ maxDepth) ∧
      ((∃ fault, conjunction (first :: more) = .error fault ∧ fault.kind = .invalidRule) ↔
        maxDepth < (nested first more).depth)) ∧
    ∀ fs, checkedDepth? fs.length 0 fs = some (conjunctionDepth fs.length 0 fs) := by
  refine ⟨rfl, fun first more => ?_, fun fs => ?_⟩
  · have hmeasured := conjunctionDepth_eq 0 first more
    rw [Nat.zero_add, Nat.add_zero] at hmeasured
    refine ⟨hmeasured, ?_⟩
    rw [conjunction_cons, ← Nat.not_le]
    by_cases hdepth : (nested first more).depth ≤ maxDepth
    · simp [hdepth]
    · simp [hdepth, Fault.kind]
  · cases fs with
    | nil => rfl
    | cons first more => exact checkedDepth?_eq (by simp) 0 _

end Formula
end Eligibility
