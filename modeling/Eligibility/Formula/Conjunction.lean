import Eligibility.Formula.Basic

/-!
# Conjunctions of rules

Several formulas are combined into one that holds where all of them hold, grouped to the right:
`A AND (B AND (C AND D))`.  The depth of the result is known beforehand, so that nothing too deep is
ever built.
-/

namespace Eligibility
namespace Formula

/-- The depth of the conjunction of `count` formulas, of which those listed start at a position.  A
formula lies one level below its position, except the last, which shares its connective. -/
def conjunctionDepth (count position : Nat) : List Formula → Nat
  | [] => 0
  | f :: more =>
    max (min (position + 1) (count - 1) + f.depth) (conjunctionDepth count (position + 1) more)

/-- Joins earlier formulas, the nearest first, in front of a formula. -/
def conjoin (earlier : List Formula) (last : Formula) : Formula :=
  earlier.foldl (fun joined f => join .and f joined) last

/-- The conjunction of formulas, grouped to the right. -/
def conjunction (fs : List Formula) : Except Fault Formula :=
  if maxDepth < conjunctionDepth fs.length 0 fs then
    .error (.conjunctionTooDeep fs.length maxDepth)
  else match fs.reverse with
    | [] => .error .emptyRuleSet
    | last :: earlier => .ok (conjoin earlier last)

end Formula
end Eligibility
