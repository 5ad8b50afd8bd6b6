/-!
# Connectives

The two connectives of a rule, how strongly they bind, and the truth function of each.

**Results.**
* `ofWord?_eq_some_iff`: a text names a connective exactly when it is its word;
* `apply_of_decided`: where the left side alone decides, the truth function agrees with it;
* `apply_of_undecided`: elsewhere the right side is the result.
-/

namespace Eligibility

/-- A logical connective. -/
inductive Connective
  | and
  | or
deriving DecidableEq, Inhabited, Repr

namespace Connective

/-- The word for the connective in rule texts and stored formulas. -/
def word : Connective → String
  | and => "AND"
  | or => "OR"

/-- The connective that a word names. -/
def ofWord? (s : String) : Option Connective :=
  if s = "AND" then some and else if s = "OR" then some or else none

/-- Binding strength; the larger binds tighter. -/
def precedence : Connective → Nat
  | and => 2
  | or => 1

/-- The truth function. -/
def apply : Connective → Bool → Bool → Bool
  | and, left, right => left && right
  | or, left, right => left || right

/-- The result that the left side alone settles, if it does. -/
def decided? : Connective → Bool → Option Bool
  | and, false => some false
  | or, true => some true
  | _, _ => none

/-- A text names a connective exactly when it is its word, in capitals. -/
theorem ofWord?_eq_some_iff {s : String} {k : Connective} : ofWord? s = some k ↔ s = k.word := by
  constructor
  · intro h
    unfold ofWord? at h
    split at h
    · rename_i hs
      rw [← Option.some.inj h, hs]
      rfl
    · split at h
      · rename_i hs
        rw [← Option.some.inj h, hs]
        rfl
      · simp at h
  · rintro rfl
    cases k <;> decide

/-- Where the left side alone decides, the right side makes no difference. -/
theorem apply_of_decided {k : Connective} {left value : Bool} (h : k.decided? left = some value)
    (right : Bool) : k.apply left right = value := by
  cases k <;> cases left <;> simp_all [decided?, apply]

theorem apply_of_undecided {k : Connective} {left : Bool} (h : k.decided? left = none)
    (right : Bool) : k.apply left right = right := by
  cases k <;> cases left <;> simp_all [decided?, apply]

end Connective
end Eligibility
