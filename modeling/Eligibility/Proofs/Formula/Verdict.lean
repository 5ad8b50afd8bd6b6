import Eligibility.Formula.Verdict
import Mathlib.Control.Monad.Basic

/-!
# Verdicts and truth

Whatever fields a record has, every condition is true or false of it once a condition on a field
that the record lacks counts as false, and the connectives carry these truth values up the formula.
A strategy decides only which conditions are looked at, and a condition without its field is a fault
only if it is looked at.

**Results.**
* `verdict_join_eq_ok_iff`: where the value of a join comes from;
* `verdict_eq_truth_or`: under either strategy the verdict is the truth value, or the fault of a
  condition without its field;
* `verdict_eager`: the eager verdict is the fault of the first condition without its field, and the
  truth value if there is none;
* `shortCircuit_agrees`: how the verdicts of the two strategies are related.
-/

namespace Eligibility
namespace Condition

/-- Whether the record lacks the field of the condition. -/
def lacksField (r : Record) (c : Condition) : Bool :=
  (r.find? c.field).isNone

/-- Whether the condition holds of the record; without its field it does not. -/
def truth (r : Record) (c : Condition) : Bool :=
  match r.find? c.field with
  | some value => c.holdsOf value
  | none => false

theorem lacksField_iff
    {r : Record} {c : Condition} :
    c.lacksField r = true ↔ r.find? c.field = none := by
  simp [lacksField]

theorem verdict_eq
    (r : Record) (c : Condition) :
    c.verdict r = if c.lacksField r then .error (.unknownField c.field) else .ok (c.truth r) := by
  unfold verdict lacksField truth
  cases r.find? c.field <;> rfl

end Condition

namespace Formula

/-- Whether the formula holds of the record, given that conditions without their fields do not. -/
def truth (r : Record) : Formula → Bool
  | leaf c => c.truth r
  | join k left right => k.apply (left.truth r) (right.truth r)

/-- What settles a join from its left side alone is its truth value. -/
theorem settle_of_decided
    {strategy : Strategy} {k : Connective} {left value : Bool}
    (h : strategy.decided? k left = some value)
    (r : Record) (right : Formula) :
    settle strategy r k right left = .ok (k.apply left (right.truth r)) := by
  have happly : k.apply left (right.truth r) = value := by
    cases strategy with
    | eager => simp [Strategy.decided?] at h
    | shortCircuit => exact Connective.apply_of_decided h _
  simp only [settle, h, happly]

theorem settle_of_undecided
    {strategy : Strategy} {k : Connective} {left : Bool}
    (h : strategy.decided? k left = none)
    (r : Record) (right : Formula) :
    settle strategy r k right left = (right.verdict strategy r).map (k.apply left) := by
  simp only [settle, h]

/-- A join has a value where its left side has one that settles the join, or that leaves it to a
right side with a value. -/
theorem verdict_join_eq_ok_iff
    {strategy : Strategy} {r : Record} {k : Connective} {left right : Formula} {v : Bool} :
    (join k left right).verdict strategy r = .ok v ↔
      ∃ l, left.verdict strategy r = .ok l ∧
        (strategy.decided? k l = some v ∨
          strategy.decided? k l = none ∧
            ∃ w, right.verdict strategy r = .ok w ∧ k.apply l w = v) := by
  rw [verdict_join]
  cases left.verdict strategy r with
  | error fault => simp [Except.bind]
  | ok l =>
      simp only [Except.bind, settle, Except.ok.injEq, exists_eq_left']
      cases strategy.decided? k l with
      | some value => simp
      | none => cases right.verdict strategy r <;> simp [Except.map]

/-- Under either strategy the verdict is the truth value, or the fault of a condition without its
field. -/
theorem verdict_eq_truth_or
    (strategy : Strategy) (r : Record) (f : Formula) :
    f.verdict strategy r = .ok (f.truth r) ∨
      ∃ c ∈ f.conditions, c.lacksField r = true ∧
        f.verdict strategy r = .error (.unknownField c.field) := by
  induction f with
  | leaf c =>
      rw [verdict_leaf, Condition.verdict_eq, conditions_leaf]
      by_cases hc : c.lacksField r = true
      · exact .inr ⟨c, by simp, hc, if_pos hc⟩
      · exact .inl (if_neg hc)
  | join k left right ihl ihr =>
      rw [verdict_join, conditions_join]
      rcases ihl with hl | ⟨c, hc, hlacks, hl⟩
      · rw [hl, Except.bind]
        cases hdecided : strategy.decided? k (left.truth r) with
        | some value => exact .inl (settle_of_decided hdecided r right)
        | none =>
            rw [settle_of_undecided hdecided]
            rcases ihr with hr | ⟨c, hc, hlacks, hr⟩
            · rw [hr]
              exact .inl rfl
            · rw [hr]
              exact .inr ⟨c, List.mem_append_right _ hc, hlacks, rfl⟩
      · rw [hl]
        exact .inr ⟨c, List.mem_append_left _ hc, hlacks, rfl⟩

/-- The eager strategy looks at every condition, from left to right. -/
theorem verdict_eager
    (r : Record) (f : Formula) :
    f.verdict .eager r =
      match f.conditions.find? (·.lacksField r) with
      | some c => .error (.unknownField c.field)
      | none => .ok (f.truth r) := by
  induction f with
  | leaf c =>
      rw [verdict_leaf, Condition.verdict_eq, conditions_leaf]
      cases hc : c.lacksField r <;> simp [hc, truth]
  | join k left right ihl ihr =>
      have hsettle : settle .eager r k right (left.truth r) =
          (right.verdict .eager r).map (k.apply (left.truth r)) :=
        settle_of_undecided rfl r right
      rw [verdict_join, conditions_join, List.find?_append, ihl]
      cases hl : left.conditions.find? (·.lacksField r) with
      | some c => rfl
      | none =>
          simp only [Except.bind, Option.none_or]
          rw [hsettle, ihr]
          cases right.conditions.find? (·.lacksField r) <;> rfl

theorem verdict_shortCircuit_of_eager
    {r : Record} {f : Formula} {v : Bool}
    (h : f.verdict .eager r = .ok v) :
    f.verdict .shortCircuit r = .ok v := by
  rw [verdict_eager] at h
  cases hfirst : f.conditions.find? (·.lacksField r) with
  | some c => simp [hfirst] at h
  | none =>
      simp only [hfirst] at h
      rcases verdict_eq_truth_or .shortCircuit r f with hshort | ⟨c, hc, hlacks, -⟩
      · exact hshort.trans h
      · exact absurd hlacks (List.find?_eq_none.mp hfirst c hc)

/-- Where a condition lacks its field, the eager verdict is the fault of one that stands no later
than any other such condition. -/
theorem verdict_eager_of_lacksField
    {r : Record} {f : Formula} {d : Condition}
    (hd : d ∈ f.conditions)
    (hlacks : d.lacksField r = true) :
    ∃ (i : Nat) (c : Condition),
      f.conditions[i]? = some c ∧ c.lacksField r = true ∧
      f.verdict .eager r = .error (.unknownField c.field) ∧
      ∀ (j : Nat) (e : Condition), f.conditions[j]? = some e → e.lacksField r = true → i ≤ j := by
  cases hfirst : f.conditions.find? (·.lacksField r) with
  | none => exact absurd hlacks (List.find?_eq_none.mp hfirst d hd)
  | some c =>
      obtain ⟨hc, i, hi, hget, hbefore⟩ := List.find?_eq_some_iff_getElem.mp hfirst
      refine ⟨i, c, ?_, hc, ?_, ?_⟩
      · rw [List.getElem?_eq_getElem hi, hget]
      · rw [verdict_eager, hfirst]
      · intro j e he hlacks
        obtain ⟨hj, rfl⟩ := List.getElem?_eq_some_iff.mp he
        refine Nat.le_of_not_lt fun hji => ?_
        simpa [hlacks] using hbefore j hji

/-- **The two strategies.**  Where the eager verdict is a truth value, the short-circuit verdict is
the same.  Where the short-circuit verdict is a truth value, the eager one is the same or the fault
of an unknown field.  Where the short-circuit verdict is a fault, it is that of a condition whose
field the record lacks, and the eager one is that of such a condition which stands no later than any
condition on the same field. -/
theorem shortCircuit_agrees
    (f : Formula) (r : Record) :
    (∀ v, f.verdict .eager r = .ok v → f.verdict .shortCircuit r = .ok v) ∧
    (∀ v, f.verdict .shortCircuit r = .ok v →
      f.verdict .eager r = .ok v ∨ ∃ g, f.verdict .eager r = .error (.unknownField g)) ∧
    (∀ fault, f.verdict .shortCircuit r = .error fault →
      ∃ d ∈ f.conditions, fault = .unknownField d.field ∧ r.find? d.field = none ∧
      ∃ (i : Nat) (c : Condition), f.conditions[i]? = some c ∧ r.find? c.field = none ∧
        f.verdict .eager r = .error (.unknownField c.field) ∧
        ∀ (j : Nat) (e : Condition), f.conditions[j]? = some e → e.field = d.field → i ≤ j) := by
  refine ⟨fun v hv => verdict_shortCircuit_of_eager hv, ?_, ?_⟩
  · intro v hv
    rcases verdict_eq_truth_or .shortCircuit r f with hshort | ⟨c, -, -, hshort⟩
    · rw [hshort] at hv
      rcases verdict_eq_truth_or .eager r f with heager | ⟨c, -, -, heager⟩
      · exact .inl (heager.trans hv)
      · exact .inr ⟨c.field, heager⟩
    · simp [hshort] at hv
  · intro fault hfault
    rcases verdict_eq_truth_or .shortCircuit r f with hshort | ⟨d, hd, hlacks, hshort⟩
    · simp [hshort] at hfault
    · rw [hshort, Except.error.injEq] at hfault
      obtain ⟨i, c, hc, hclacks, heager, hfirst⟩ := verdict_eager_of_lacksField hd hlacks
      rw [Condition.lacksField_iff] at hlacks hclacks
      refine ⟨d, hd, hfault.symm, hlacks, i, c, hc, hclacks, heager, ?_⟩
      intro j e he hfield
      exact hfirst j e he (Condition.lacksField_iff.mpr (hfield ▸ hlacks))

/-- Of three records, one has every field, one lacks a field that is skipped, and one lacks a field
that is skipped before it lacks another. -/
theorem shortCircuit_agrees_on_skipped_conditions :
    ∃ f : Formula,
      f = join .or (join .and (leaf ⟨"a", .equal, .text "x"⟩) (leaf ⟨"b", .equal, .text "y"⟩))
        (leaf ⟨"c", .equal, .text "z"⟩) ∧
      f.verdict .shortCircuit
        (Keyed.ofList [("a", .text "x"), ("b", .text ""), ("c", .text "z")]) = .ok true ∧
      (f.verdict .eager (Keyed.ofList [("a", .text "x"), ("b", .text "y")]) = .ok true ∨
        ∃ g, f.verdict .eager (Keyed.ofList [("a", .text "x"), ("b", .text "y")]) =
          .error (.unknownField g)) ∧
      f.verdict .shortCircuit (Keyed.ofList [("a", .text "")]) = .error (.unknownField "c") ∧
      ∃ (i : Nat) (c : Condition), f.conditions[i]? = some c ∧
        f.verdict .eager (Keyed.ofList [("a", .text "")]) = .error (.unknownField c.field) ∧
        ∀ (j : Nat) (e : Condition), f.conditions[j]? = some e → e.field = "c" → i ≤ j := by
  refine ⟨_, rfl, ?_⟩
  have hwhole : (join .or (join .and (leaf ⟨"a", .equal, .text "x"⟩) (leaf ⟨"b", .equal, .text "y"⟩))
      (leaf ⟨"c", .equal, .text "z"⟩)).verdict .eager
        (Keyed.ofList [("a", .text "x"), ("b", .text ""), ("c", .text "z")]) = .ok true := by
    decide +kernel
  have hskipped : (join .or (join .and (leaf ⟨"a", .equal, .text "x"⟩)
      (leaf ⟨"b", .equal, .text "y"⟩)) (leaf ⟨"c", .equal, .text "z"⟩)).verdict .shortCircuit
        (Keyed.ofList [("a", .text "x"), ("b", .text "y")]) = .ok true := by
    decide +kernel
  have hmissing : (join .or (join .and (leaf ⟨"a", .equal, .text "x"⟩)
      (leaf ⟨"b", .equal, .text "y"⟩)) (leaf ⟨"c", .equal, .text "z"⟩)).verdict .shortCircuit
        (Keyed.ofList [("a", .text "")]) = .error (.unknownField "c") := by
    decide +kernel
  refine ⟨(shortCircuit_agrees _ _).1 _ hwhole, (shortCircuit_agrees _ _).2.1 _ hskipped,
    hmissing, ?_⟩
  obtain ⟨d, -, hd, -, i, c, hc, -, heager, hfirst⟩ := (shortCircuit_agrees _ _).2.2 _ hmissing
  rw [Fault.unknownField.injEq] at hd
  exact ⟨i, c, hc, heager, hd ▸ hfirst⟩

end Formula
end Eligibility
