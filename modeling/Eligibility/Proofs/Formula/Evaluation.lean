import Eligibility.Proofs.Formula.Verdict
import Eligibility.Proofs.Formula.Walks

/-!
# Evaluation by recursion

The verdict of a formula is computed by a loop over pending tasks with one value in hand.  Its result
is what recursion over the formula gives.  The eager strategy has a result exactly on the records
that have every field of the formula, and then it is the truth value of the formula.  The
short-circuit strategy goes into the right side of a join only where the left side has not settled
it.

**Results.**
* `mem_fields_iff`: the fields of a formula are those of its conditions;
* `verdict_eager_of_fields`, `verdict_eager_of_missing`: the eager verdict with and without all
  fields;
* `verdict_shortCircuit_eq`: the short-circuit verdict by recursion;
* `verdict_recursive`: all of this for every formula and record.
-/

namespace Eligibility
namespace Formula

/-! ## Fields -/

/-- The fields of a formula are those of its conditions. -/
theorem mem_fields_iff
    {f : Formula} {name : String} :
    name ∈ f.fields ↔ ∃ c ∈ f.conditions, c.field = name := by
  rw [fields_eq, List.mem_eraseDups, names, ← conditions_eq_leaves, List.mem_map]

/-- A record has all fields of a formula if no condition lacks its field. -/
theorem contains_fields_iff
    {f : Formula} {r : Record} :
    (∀ name ∈ f.fields, r.contains name = true) ↔
      ∀ c ∈ f.conditions, c.lacksField r = false := by
  simp only [mem_fields_iff, Keyed.contains, Condition.lacksField]
  constructor
  · intro h c hc
    simpa using h c.field ⟨c, hc, rfl⟩
  · rintro h _ ⟨c, hc, rfl⟩
    simpa using h c hc

/-! ## The eager strategy -/

/-- With all fields every condition has a verdict, and so has the formula. -/
theorem verdict_eager_of_fields
    {f : Formula} {r : Record}
    (h : ∀ name ∈ f.fields, r.contains name = true) :
    (∀ c ∈ f.conditions, c.verdict r = .ok (c.truth r)) ∧ f.verdict .eager r = .ok (f.truth r) := by
  have hfields := contains_fields_iff.mp h
  constructor
  · intro c hc
    rw [Condition.verdict_eq, hfields c hc]
    rfl
  · have hnone : f.conditions.find? (·.lacksField r) = none :=
      List.find?_eq_none.mpr fun c hc => by simp [hfields c hc]
    rw [verdict_eager, hnone]

/-- With a field missing, the fault is that of the first condition from the left that lacks its
field. -/
theorem verdict_eager_of_missing
    {f : Formula} {r : Record}
    (h : ¬ ∀ name ∈ f.fields, r.contains name = true) :
    ∃ before c after, f.conditions = before ++ c :: after ∧
      (∀ e ∈ before, r.contains e.field = true) ∧ r.contains c.field = false ∧
      f.verdict .eager r = .error (.unknownField c.field) := by
  rw [contains_fields_iff] at h
  rw [verdict_eager]
  cases hfirst : f.conditions.find? (·.lacksField r) with
  | none =>
      refine absurd (fun c hc => ?_) h
      simpa using List.find?_eq_none.mp hfirst c hc
  | some c =>
      obtain ⟨hlacks, before, after, hsplit, hbefore⟩ := List.find?_eq_some_iff_append.mp hfirst
      refine ⟨before, c, after, hsplit, ?_, ?_, rfl⟩
      · intro e he
        simpa [Condition.lacksField, Keyed.contains] using hbefore e he
      · simpa [Condition.lacksField, Keyed.contains] using hlacks

/-! ## The short-circuit strategy -/

/-- The verdict of a formula whose right sides are looked at only where they matter. -/
def shortCircuit (r : Record) : Formula → Except Fault Bool
  | leaf c => c.verdict r
  | join .and left right =>
    match left.shortCircuit r with
    | .error fault => .error fault
    | .ok false => .ok false
    | .ok true => right.shortCircuit r
  | join .or left right =>
    match left.shortCircuit r with
    | .error fault => .error fault
    | .ok true => .ok true
    | .ok false => right.shortCircuit r

/-- Where the left side leaves a join open, the join is its right side. -/
theorem settle_shortCircuit_of_open
    {k : Connective} {left : Bool}
    (h : k.decided? left = none)
    (r : Record) (right : Formula) :
    settle .shortCircuit r k right left = right.verdict .shortCircuit r := by
  have hopen : Strategy.shortCircuit.decided? k left = none := h
  have happly : k.apply left = id := funext (Connective.apply_of_undecided h)
  rw [settle_of_undecided hopen, happly]
  cases right.verdict .shortCircuit r <;> rfl

/-- The loop over tasks and the recursion skip the same right sides. -/
theorem verdict_shortCircuit_eq
    (r : Record) (f : Formula) :
    f.verdict .shortCircuit r = f.shortCircuit r := by
  induction f with
  | leaf c => exact verdict_leaf .shortCircuit r c
  | join k left right ihl ihr =>
      have handOpen : Connective.and.decided? true = none := rfl
      have horOpen : Connective.or.decided? false = none := rfl
      rw [verdict_join, ihl]
      cases k with
      | and =>
          rw [shortCircuit]
          cases left.shortCircuit r with
          | error fault => rfl
          | ok v =>
              cases v with
              | false => rfl
              | true => exact (settle_shortCircuit_of_open handOpen r right).trans ihr
      | or =>
          rw [shortCircuit]
          cases left.shortCircuit r with
          | error fault => rfl
          | ok v =>
              cases v with
              | true => rfl
              | false => exact (settle_shortCircuit_of_open horOpen r right).trans ihr

/-! ## Both strategies -/

/-- **Evaluation.**  The eager verdict is a truth value exactly if the record has every field of the
formula.  Then it is the truth value of the formula over the verdicts of its conditions.  Otherwise
it is the fault of the first condition from the left whose field the record lacks.  The
short-circuit verdict is that of the recursion that stops where the left side decides. -/
theorem verdict_recursive
    (f : Formula) (r : Record) :
    ((∃ v, f.verdict .eager r = .ok v) ↔ ∀ name ∈ f.fields, r.contains name = true) ∧
    ((∀ name ∈ f.fields, r.contains name = true) →
      (∀ c ∈ f.conditions, c.verdict r = .ok (c.truth r)) ∧
        f.verdict .eager r = .ok (f.truth r)) ∧
    ((¬ ∀ name ∈ f.fields, r.contains name = true) →
      ∃ before c after, f.conditions = before ++ c :: after ∧
        (∀ e ∈ before, r.contains e.field = true) ∧ r.contains c.field = false ∧
        f.verdict .eager r = .error (.unknownField c.field)) ∧
    f.verdict .shortCircuit r = f.shortCircuit r := by
  refine ⟨⟨?_, ?_⟩, verdict_eager_of_fields, verdict_eager_of_missing, verdict_shortCircuit_eq r f⟩
  · rintro ⟨v, hv⟩
    by_contra hmissing
    obtain ⟨before, c, after, -, -, -, herror⟩ := verdict_eager_of_missing hmissing
    simp [hv] at herror
  · intro hfields
    exact ⟨f.truth r, (verdict_eager_of_fields hfields).2⟩

/-- One record has every field, and one lacks the fields of the second and the third condition. -/
theorem verdict_recursive_missing_fields :
    ∃ (f : Formula) (full lacking : Record),
      f = join .or (join .and (leaf ⟨"a", .equal, .text "x"⟩) (leaf ⟨"b", .equal, .text "y"⟩))
        (leaf ⟨"c", .equal, .text "z"⟩) ∧
      full = Keyed.ofList [("a", .text "x"), ("b", .text ""), ("c", .text "z")] ∧
      lacking = Keyed.ofList [("a", .text "x")] ∧
      (∀ name ∈ f.fields, full.contains name = true) ∧
      f.verdict .eager full = .ok (f.truth full) ∧
      (¬ ∀ name ∈ f.fields, lacking.contains name = true) ∧
      ∃ before c after, f.conditions = before ++ c :: after ∧
        f.verdict .eager lacking = .error (.unknownField c.field) := by
  refine ⟨_, _, _, rfl, rfl, rfl, ?_⟩
  have hall : ∀ name ∈ (join .or (join .and (leaf ⟨"a", .equal, .text "x"⟩)
      (leaf ⟨"b", .equal, .text "y"⟩)) (leaf ⟨"c", .equal, .text "z"⟩)).fields,
      (Keyed.ofList [("a", .text "x"), ("b", .text ""), ("c", .text "z")] : Record).contains name =
        true := by
    decide +kernel
  have hmissing : ¬ ∀ name ∈ (join .or (join .and (leaf ⟨"a", .equal, .text "x"⟩)
      (leaf ⟨"b", .equal, .text "y"⟩)) (leaf ⟨"c", .equal, .text "z"⟩)).fields,
      (Keyed.ofList [("a", .text "x")] : Record).contains name = true := by
    decide +kernel
  obtain ⟨before, c, after, hsplit, -, -, hverdict⟩ := (verdict_recursive _ _).2.2.1 hmissing
  exact ⟨hall, ((verdict_recursive _ _).2.1 hall).2, hmissing, before, c, after, hsplit, hverdict⟩

end Formula
end Eligibility
