import Eligibility.Condition.Basic

/-!
# Formulas

A formula is a binary tree with conditions at its leaves and connectives inside.  `conditions` and
`depth` walk the tree with a list of pending subtrees, so that they need no room on the stack
however deep the tree is.

**Results.**
* `collect_eq`, `deepest_eq`: what a walk makes of any pending subtrees;
* `conditions_eq_leaves`, `depth_eq_levels`: the walks by recursion;
* `conditions_join`, `depth_join`: the walks of a join in terms of those of its two sides.
-/

namespace Eligibility

/-- A condition, or two formulas joined by a connective. -/
inductive Formula
  | leaf (condition : Condition)
  | join (connective : Connective) (left right : Formula)
deriving DecidableEq, Inhabited, Repr

namespace Formula

/-- The deepest formula that is read from a text or a document, or put together from rules. -/
def maxDepth : Nat := 1024

/-- The number of leaves and connectives. -/
def size : Formula → Nat
  | leaf _ => 1
  | join _ left right => left.size + right.size + 1

/-- The number of leaves and connectives of several formulas. -/
def sizes : List Formula → Nat
  | [] => 0
  | f :: fs => f.size + sizes fs

/-- Conditions of the pending subtrees from left to right, after those already met. -/
def collect (met : List Condition) : List Formula → List Condition
  | [] => met.reverse
  | leaf c :: pending => collect (c :: met) pending
  | join _ left right :: pending => collect met (left :: right :: pending)
termination_by pending => sizes pending
decreasing_by
  all_goals simp only [sizes, size]
  all_goals omega

/-- The conditions from left to right. -/
def conditions (f : Formula) : List Condition :=
  collect [] [f]

/-- The deepest level reached below pending subtrees that are given with their own levels. -/
def deepest (reached : Nat) : List (Formula × Nat) → Nat
  | [] => reached
  | (leaf _, level) :: pending => deepest (max reached level) pending
  | (join _ left right, level) :: pending =>
    deepest (max reached level) ((left, level + 1) :: (right, level + 1) :: pending)
termination_by pending => sizes (pending.map Prod.fst)
decreasing_by
  all_goals simp only [List.map_cons, sizes, size]
  all_goals omega

/-- The number of levels; a single condition has one. -/
def depth (f : Formula) : Nat :=
  deepest 0 [(f, 1)]

/-! ## The walks by recursion -/

/-- The conditions from left to right, those of the left side first. -/
def leaves : Formula → List Condition
  | leaf c => [c]
  | join _ left right => left.leaves ++ right.leaves

/-- The number of levels, one more than on the deeper side. -/
def levels : Formula → Nat
  | leaf _ => 1
  | join _ left right => max left.levels right.levels + 1

/-- The walk puts the conditions of the pending subtrees, in their order, behind those already met.
-/
theorem collect_eq (met : List Condition) (pending : List Formula) :
    collect met pending = met.reverse ++ pending.flatMap leaves := by
  fun_induction collect met pending with
  | case1 met => simp
  | case2 met c pending ih => simp [ih, leaves]
  | case3 met k left right pending ih => simp [ih, leaves]

/-- A pending subtree on level `n` reaches as many levels as it has, counted from `n`; the walk
keeps the largest. -/
theorem deepest_eq (reached : Nat) (pending : List (Formula × Nat)) :
    deepest reached pending =
      pending.foldl (fun reached p => max reached (p.1.levels + p.2 - 1)) reached := by
  fun_induction deepest reached pending with
  | case1 reached => rfl
  | case2 reached c level pending ih =>
    rw [ih, List.foldl_cons, levels, Nat.add_sub_cancel_left]
  | case3 reached k left right level pending ih =>
    -- the level of the join itself is below one of its sides
    have hsides : max (max (max reached level) (left.levels + (level + 1) - 1))
        (right.levels + (level + 1) - 1) =
          max reached (max left.levels right.levels + 1 + level - 1) := by omega
    rw [ih, List.foldl_cons, List.foldl_cons, List.foldl_cons, levels, hsides]

/-- The walk with pending subtrees collects what the recursion does. -/
theorem conditions_eq_leaves (f : Formula) : f.conditions = f.leaves := by
  simp [conditions, collect_eq]

/-- The walk with pending subtrees counts the levels that the recursion counts. -/
theorem depth_eq_levels (f : Formula) : f.depth = f.levels := by
  simp [depth, deepest_eq]

theorem conditions_leaf (c : Condition) : (leaf c).conditions = [c] :=
  conditions_eq_leaves _

/-- The conditions of a join, those of its left side first. -/
theorem conditions_join (k : Connective) (left right : Formula) :
    (join k left right).conditions = left.conditions ++ right.conditions := by
  simp only [conditions_eq_leaves, leaves]

theorem depth_leaf (c : Condition) : (leaf c).depth = 1 :=
  depth_eq_levels _

theorem depth_join (k : Connective) (left right : Formula) :
    (join k left right).depth = max left.depth right.depth + 1 := by
  simp only [depth_eq_levels, levels]

/-- The different fields of the conditions, in the order in which they are first met. -/
def fields (f : Formula) : List String :=
  (f.conditions.foldl
    (fun seen c => if seen.contains c.field then seen else c.field :: seen) []).reverse

end Formula
end Eligibility
