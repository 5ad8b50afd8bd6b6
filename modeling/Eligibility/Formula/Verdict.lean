import Eligibility.Formula.Basic
import Eligibility.Record.Basic

/-!
# The verdict of a formula on a record

A condition compares as numbers where the value and the literal both read as numbers, and as texts,
by code points, elsewhere.  A formula is evaluated from left to right with a list of pending tasks,
so that no depth is too much.  The eager strategy looks at every condition; the short-circuit
strategy skips the right side of a connective that the left side has settled.

**Results.**
* `run_visit`: a formula that comes first is evaluated before the other tasks, and its value
  replaces the one before it;
* `verdict_leaf`, `verdict_join`: the verdict of a formula in terms of those of its parts.
-/

namespace Eligibility

/-- How the right side of a connective is treated. -/
inductive Strategy
  /-- Both sides are always evaluated, so a missing field is always noticed. -/
  | eager
  /-- The right side is skipped once the left side settles the result. -/
  | shortCircuit
deriving DecidableEq, Inhabited, Repr

namespace Strategy

/-- The name of the strategy in settings. -/
def name : Strategy → String
  | eager => "eager"
  | shortCircuit => "short_circuit"

/-- The strategy with a name. -/
def ofName (s : String) : Except Fault Strategy :=
  if s = "eager" then .ok eager
  else if s = "short_circuit" then .ok shortCircuit
  else .error (.unknownStrategy s)

/-- The result that the strategy takes from the left side alone, if it does. -/
def decided? : Strategy → Connective → Bool → Option Bool
  | eager, _, _ => none
  | shortCircuit, k, left => k.decided? left

end Strategy

namespace Condition

/-- The order of a value and a literal: as numbers if both read as numbers, else as texts.  Only
what is not a number has no order. -/
def order? (value : FieldValue) (literal : Literal) : Option Ordering :=
  match value.number?, literal.number? with
  | some x, some y => Binary64.compare? x y
  | _, _ => some (compare value.plainText literal.plainText)

/-- Whether the condition holds of a value. -/
def holdsOf (c : Condition) (value : FieldValue) : Bool :=
  match order? value c.literal with
  | some order => c.comparator.holds order
  | none => false

/-- Whether the condition holds of a record that has its field. -/
def verdict (r : Record) (c : Condition) : Except Fault Bool :=
  match r.find? c.field with
  | some value => .ok (c.holdsOf value)
  | none => .error (.unknownField c.field)

end Condition

namespace Formula

/-- What is left to do while a formula is evaluated. -/
inductive Task
  /-- Evaluate a formula. -/
  | visit (f : Formula)
  /-- The left side is known; go on to the right side if it is needed. -/
  | join (connective : Connective) (right : Formula)
  /-- Both sides are known; apply the connective. -/
  | finish (connective : Connective) (left : Bool)
deriving Repr

/-- The steps that a formula takes. -/
def steps : Formula → Nat
  | leaf _ => 1
  | join _ left right => left.steps + right.steps + 3

/-- The steps that a task takes at most. -/
def Task.steps : Task → Nat
  | visit f => f.steps
  | join _ right => right.steps + 2
  | finish _ _ => 1

/-- The steps that several tasks take at most. -/
def Task.total : List Task → Nat
  | [] => 0
  | task :: tasks => task.steps + total tasks

/-- Carries out pending tasks, given the value of the formula evaluated last. -/
def run (strategy : Strategy) (r : Record) (value : Bool) : List Task → Except Fault Bool
  | [] => .ok value
  | .visit (leaf c) :: pending =>
    match c.verdict r with
    | .ok value => run strategy r value pending
    | .error fault => .error fault
  | .visit (join k left right) :: pending =>
    run strategy r value (.visit left :: .join k right :: pending)
  | .join k right :: pending =>
    match strategy.decided? k value with
    | some value => run strategy r value pending
    | none => run strategy r value (.visit right :: .finish k value :: pending)
  | .finish k left :: pending => run strategy r (k.apply left value) pending
termination_by pending => Task.total pending
decreasing_by
  all_goals simp only [Task.total, Task.steps, steps]
  all_goals omega

/-- The verdict of a formula on a record. -/
def verdict (strategy : Strategy) (r : Record) (f : Formula) : Except Fault Bool :=
  run strategy r false [.visit f]

/-- What becomes of a join once its left side has a value. -/
def settle (strategy : Strategy) (r : Record) (k : Connective) (right : Formula) (left : Bool) :
    Except Fault Bool :=
  match strategy.decided? k left with
  | some value => .ok value
  | none => (right.verdict strategy r).map (k.apply left)

/-- Visiting a formula, whatever else is pending, evaluates it first and goes on with its value.
This is the run lemma: a formula that has been visited leaves nothing behind among the tasks. -/
theorem run_visit (strategy : Strategy) (r : Record) (value : Bool) (f : Formula)
    (pending : List Task) :
    run strategy r value (.visit f :: pending) =
      (f.verdict strategy r).bind fun v => run strategy r v pending := by
  induction f generalizing value pending with
  | leaf c =>
    rw [run, verdict, run]
    cases c.verdict r with
    | error fault => rfl
    | ok v => simp [run, Except.bind]
  | join k left right ihl ihr =>
    have hright (v : Bool) (pending : List Task) :
        run strategy r v (.join k right :: pending) =
          (settle strategy r k right v).bind fun w => run strategy r w pending := by
      rw [run, settle]
      cases strategy.decided? k v with
      | some w => rfl
      | none =>
        simp only [ihr]
        cases right.verdict strategy r with
        | error fault => rfl
        | ok w => simp [run, Except.bind, Except.map]
    rw [verdict, run, run, ihl, ihl]
    cases left.verdict strategy r with
    | error fault => rfl
    | ok v =>
      simp only [Except.bind, hright]
      cases settle strategy r k right v with
      | error fault => rfl
      | ok w => simp [run]

/-- The verdict of a leaf is that of its condition. -/
theorem verdict_leaf (strategy : Strategy) (r : Record) (c : Condition) :
    (leaf c).verdict strategy r = c.verdict r := by
  rw [verdict, run]
  cases c.verdict r with
  | error fault => rfl
  | ok v => simp [run]

/-- A join is settled by the value of its left side; a fault there is the fault of the join. -/
theorem verdict_join (strategy : Strategy) (r : Record) (k : Connective) (left right : Formula) :
    (join k left right).verdict strategy r =
      (left.verdict strategy r).bind (settle strategy r k right) := by
  rw [verdict, run, run_visit]
  cases left.verdict strategy r with
  | error fault => rfl
  | ok v =>
    simp only [Except.bind]
    rw [run, settle]
    cases strategy.decided? k v with
    | some w => simp [run]
    | none =>
      simp only [run_visit]
      cases right.verdict strategy r with
      | error fault => rfl
      | ok w => simp [run, Except.bind, Except.map]

end Formula
end Eligibility
