import Eligibility.Proofs.Formula.Evaluation

/-!
# Verdicts are monotone

There is no negation in a formula.  So a condition that turns from false to true can turn a verdict
from false to true, but never from true to false, and where all conditions say the same the formula
says it too.

**Results.**
* `truth_mono`, `truth_eq_of_conditions`: both laws for truth values;
* `verdict_of_fields`: with all fields both strategies find the truth value;
* `verdict_monotone`: both laws for verdicts, under either strategy.
-/

namespace Eligibility

namespace Connective

theorem apply_mono
    {k : Connective} {left right left' right' : Bool}
    (hl : left = true → left' = true)
    (hr : right = true → right' = true)
    (h : k.apply left right = true) :
    k.apply left' right' = true := by
  cases k with
  | and =>
      obtain ⟨hleft, hright⟩ := Bool.and_eq_true_iff.mp h
      exact Bool.and_eq_true_iff.mpr ⟨hl hleft, hr hright⟩
  | or => exact Bool.or_eq_true_iff.mpr ((Bool.or_eq_true_iff.mp h).imp hl hr)

@[simp] theorem apply_self
    (k : Connective) (v : Bool) :
    k.apply v v = v := by
  cases k with
  | and => exact Bool.and_self v
  | or => exact Bool.or_self v

end Connective

/-- Only a record with its field gives a condition a truth value. -/
theorem Condition.verdict_eq_ok_iff
    {r : Record} {c : Condition} {v : Bool} :
    c.verdict r = .ok v ↔ c.lacksField r = false ∧ c.truth r = v := by
  rw [verdict_eq]
  cases c.lacksField r <;> simp

namespace Formula

/-- Truth values are monotone in those of the conditions, since there is no negation. -/
theorem truth_mono
    {r s : Record} {f : Formula}
    (h : ∀ c ∈ f.conditions, c.truth r = true → c.truth s = true)
    (hr : f.truth r = true) :
    f.truth s = true := by
  induction f with
  | leaf c => exact h c (by simp [conditions_leaf]) hr
  | join k left right ihl ihr =>
      simp only [conditions_join, List.mem_append] at h
      exact Connective.apply_mono (ihl fun c hc => h c (.inl hc)) (ihr fun c hc => h c (.inr hc)) hr

theorem truth_eq_of_conditions
    {r : Record} {f : Formula} {v : Bool}
    (h : ∀ c ∈ f.conditions, c.truth r = v) :
    f.truth r = v := by
  induction f with
  | leaf c => exact h c (by simp [conditions_leaf])
  | join k left right ihl ihr =>
      simp only [conditions_join, List.mem_append] at h
      rw [truth, ihl fun c hc => h c (.inl hc), ihr fun c hc => h c (.inr hc),
        Connective.apply_self]

/-- With all fields both strategies find the truth value. -/
theorem verdict_of_fields
    {f : Formula} {r : Record}
    (h : ∀ name ∈ f.fields, r.contains name = true)
    (strategy : Strategy) :
    f.verdict strategy r = .ok (f.truth r) := by
  have heager := (verdict_eager_of_fields h).2
  cases strategy with
  | eager => exact heager
  | shortCircuit => exact verdict_shortCircuit_of_eager heager

/-- **Monotonicity.**  Of two records with all fields of a formula, let every condition that holds of
the first hold of the second.  Then the formula holds of the second if it holds of the first.  Where
all conditions hold the formula holds, and where all of them fail it fails. -/
theorem verdict_monotone
    (f : Formula) (strategy : Strategy) :
    (∀ r s : Record,
      (∀ name ∈ f.fields, r.contains name = true) →
      (∀ name ∈ f.fields, s.contains name = true) →
      (∀ c ∈ f.conditions, c.verdict r = .ok true → c.verdict s = .ok true) →
      f.verdict strategy r = .ok true → f.verdict strategy s = .ok true) ∧
    (∀ (r : Record) (v : Bool), (∀ c ∈ f.conditions, c.verdict r = .ok v) →
      f.verdict strategy r = .ok v) := by
  constructor
  · intro r s hr hs hleaves h
    rw [verdict_of_fields hr, Except.ok.injEq] at h
    rw [verdict_of_fields hs, Except.ok.injEq]
    refine truth_mono (fun c hc htrue => ?_) h
    have hlacks := contains_fields_iff.mp hr c hc
    exact (Condition.verdict_eq_ok_iff.mp
      (hleaves c hc (Condition.verdict_eq_ok_iff.mpr ⟨hlacks, htrue⟩))).2
  · intro r v h
    have hconditions := fun c hc => Condition.verdict_eq_ok_iff.mp (h c hc)
    have hfields := contains_fields_iff.mpr fun c hc => (hconditions c hc).1
    rw [verdict_of_fields hfields, truth_eq_of_conditions fun c hc => (hconditions c hc).2]

/-- The second record satisfies one condition more than the first, and the third one satisfies none. -/
theorem verdict_monotone_nested :
    ∃ (f : Formula) (r s t : Record),
      f = join .or (join .and (leaf ⟨"a", .equal, .text "x"⟩) (leaf ⟨"b", .equal, .text "x"⟩))
        (leaf ⟨"c", .equal, .text "x"⟩) ∧
      r = Keyed.ofList [("a", .text ""), ("b", .text "x"), ("c", .text "x")] ∧
      s = Keyed.ofList [("a", .text "x"), ("b", .text "x"), ("c", .text "x")] ∧
      t = Keyed.ofList [("a", .text ""), ("b", .text ""), ("c", .text "")] ∧
      (∀ c ∈ f.conditions, c.verdict r = .ok true → c.verdict s = .ok true) ∧
      f.verdict .shortCircuit r = .ok true ∧
      f.verdict .shortCircuit s = .ok true ∧
      (∀ c ∈ f.conditions, c.verdict t = .ok false) ∧
      f.verdict .eager t = .ok false := by
  obtain ⟨f, hf⟩ : ∃ f, f = join .or (join .and (leaf ⟨"a", .equal, .text "x"⟩)
      (leaf ⟨"b", .equal, .text "x"⟩)) (leaf ⟨"c", .equal, .text "x"⟩) := ⟨_, rfl⟩
  obtain ⟨r, hr⟩ : ∃ r : Record,
      r = Keyed.ofList [("a", .text ""), ("b", .text "x"), ("c", .text "x")] := ⟨_, rfl⟩
  obtain ⟨s, hs⟩ : ∃ s : Record,
      s = Keyed.ofList [("a", .text "x"), ("b", .text "x"), ("c", .text "x")] := ⟨_, rfl⟩
  obtain ⟨t, ht⟩ : ∃ t : Record,
      t = Keyed.ofList [("a", .text ""), ("b", .text ""), ("c", .text "")] := ⟨_, rfl⟩
  have hfields : (∀ name ∈ f.fields, r.contains name = true) ∧
      ∀ name ∈ f.fields, s.contains name = true := by
    rw [hf, hr, hs]
    decide +kernel
  have hleaves : ∀ c ∈ f.conditions, c.verdict r = .ok true → c.verdict s = .ok true := by
    rw [hf, hr, hs]
    decide +kernel
  have hfirst : f.verdict .shortCircuit r = .ok true := by
    rw [hf, hr]
    decide +kernel
  have hfail : ∀ c ∈ f.conditions, c.verdict t = .ok false := by
    rw [hf, ht]
    decide +kernel
  exact ⟨f, r, s, t, hf, hr, hs, ht, hleaves, hfirst,
    (verdict_monotone f .shortCircuit).1 r s hfields.1 hfields.2 hleaves hfirst, hfail,
    (verdict_monotone f .eager).2 t false hfail⟩

end Formula
end Eligibility
