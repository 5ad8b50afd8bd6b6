import Eligibility.Formula.Infix
import Eligibility.Keyed

/-!
# Kept formulas

Formulas are kept under the rule texts that they were read from.  Once a cache is full, further
rules are read each time and not kept; rules that cannot be read are never kept.

A look-up and an insertion are separate steps, since callers that share a cache hold it only for the
one or the other and read the rule in between.
-/

namespace Eligibility

/-- Formulas under the rule texts that they were read from. -/
structure Cache where
  /-- The number of formulas that are kept at most. -/
  capacity : Nat
  /-- Whether rules with stray text are refused. -/
  strict : Bool
  /-- The formulas. -/
  kept : Keyed Formula

namespace Cache

/-- A cache that keeps nothing yet. -/
def empty (capacity : Nat) (strict : Bool) : Cache :=
  ⟨capacity, strict, Keyed.empty⟩

/-- The number of formulas that are kept. -/
def size (c : Cache) : Nat :=
  c.kept.size

/-- The formula that is kept for a rule. -/
def find? (c : Cache) (rule : String) : Option Formula :=
  c.kept.find? rule

/-- Keeps a formula, unless the cache is full. -/
def keep (c : Cache) (rule : String) (f : Formula) : Cache :=
  if c.size < c.capacity then { c with kept := c.kept.insert rule f } else c

/-- Forgets all formulas. -/
def clear (c : Cache) : Cache :=
  { c with kept := Keyed.empty }

/-- The formula of a rule, kept or read, and the cache afterwards. -/
def fetch (c : Cache) (rule : String) : Except Fault Formula × Cache :=
  match c.find? rule with
  | some f => (.ok f, c)
  | none =>
    match Formula.ofText c.strict rule with
    | .ok f => (.ok f, c.keep rule f)
    | .error fault => (.error fault, c)

end Cache
end Eligibility
