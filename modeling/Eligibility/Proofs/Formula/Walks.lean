import Eligibility.Formula.Basic
import Mathlib.Data.List.Basic
import Mathlib.Data.List.Induction

/-!
# Walks over a formula

The conditions and the depth of a formula are found by loops over pending subtrees, and its fields by
a loop over the conditions.  All of them are what recursion over the formula gives.  A field is kept
where it is met first, so that none is there twice and none is missing.

**Results.**
* `foldl_field_eq`, `fields_eq`: the fields are the names at the places where they are met first;
* `pairwise_idxOf_eraseDups`: these stand in the order of their first places;
* `walks_by_recursion`: conditions, depth and fields together.
-/

namespace Eligibility
namespace Formula

/-- The fields of the conditions from left to right, each as often as it is met. -/
def names (f : Formula) : List String :=
  f.leaves.map Condition.field

/-! ## Names that are met first -/

theorem eraseDups_concat
    (names : List String) (name : String) :
    (names ++ [name]).eraseDups =
      if name ∈ names then names.eraseDups else names.eraseDups ++ [name] := by
  rw [List.eraseDups_append]
  split
  · rename_i hname
    have hnone : [name].removeAll names = [] := by simp [List.removeAll, hname]
    rw [hnone, List.eraseDups_nil, List.append_nil]
  · rename_i hname
    have hone : [name].removeAll names = [name] := by simp [List.removeAll, hname]
    rw [hone, List.eraseDups_cons, List.filter_nil, List.eraseDups_nil]

/-- The loop over the conditions holds the names in reverse. -/
theorem foldl_field_eq (cs : List Condition) :
    cs.foldl (fun seen c => if seen.contains c.field then seen else c.field :: seen) [] =
      (cs.map Condition.field).eraseDups.reverse := by
  induction cs using List.reverseRecOn with
  | nil => rfl
  | append_singleton cs c ih =>
      have hseen : (cs.map Condition.field).eraseDups.reverse.contains c.field = true ↔
          c.field ∈ cs.map Condition.field := by
        rw [List.contains_iff_mem, List.mem_reverse, List.mem_eraseDups]
      rw [List.foldl_append, ih, List.foldl_cons, List.foldl_nil, List.map_append, List.map_singleton,
        eraseDups_concat]
      simp only [hseen]
      split
      · rfl
      · exact List.reverse_concat.symm

/-- The loop that skips fields already seen leaves each name where it is met first. -/
theorem fields_eq (f : Formula) : f.fields = f.names.eraseDups := by
  rw [fields, foldl_field_eq, List.reverse_reverse, conditions_eq_leaves, names]

/-- Without its repetitions a list is in the order of the first places. -/
theorem pairwise_idxOf_eraseDups (names : List String) :
    names.eraseDups.Pairwise fun first second => names.idxOf first < names.idxOf second := by
  induction names using List.reverseRecOn with
  | nil => exact List.Pairwise.nil
  | append_singleton names name ih =>
      have hkept : names.eraseDups.Pairwise fun first second =>
          (names ++ [name]).idxOf first < (names ++ [name]).idxOf second := by
        refine ih.imp_of_mem fun hfirst hsecond hlt => ?_
        rwa [List.idxOf_append_of_mem (List.mem_eraseDups.mp hfirst),
          List.idxOf_append_of_mem (List.mem_eraseDups.mp hsecond)]
      rw [eraseDups_concat]
      split
      · exact hkept
      · rename_i hname
        refine List.pairwise_append.mpr ⟨hkept, List.pairwise_singleton _ _, ?_⟩
        intro first hfirst second hsecond
        have hmem : first ∈ names := List.mem_eraseDups.mp hfirst
        rw [List.mem_singleton.mp hsecond, List.idxOf_append_of_mem hmem,
          List.idxOf_append_of_notMem hname]
        exact Nat.lt_add_right _ (List.idxOf_lt_length_of_mem hmem)

/-! ## Conditions, depth and fields -/

/-- **Walks by recursion.**  The conditions of a formula are those of its leaves from left to right and
its depth is the number of its levels.  Its fields are those of the conditions, each of them once, in
the order in which they are met first. -/
theorem walks_by_recursion (f : Formula) :
    f.conditions = f.leaves ∧
      f.depth = f.levels ∧
      f.fields = f.names.eraseDups ∧
      f.fields.Nodup ∧
      (∀ name, name ∈ f.fields ↔ name ∈ f.names) ∧
      f.fields.Pairwise fun first second => f.names.idxOf first < f.names.idxOf second := by
  have horder := pairwise_idxOf_eraseDups f.names
  rw [fields_eq]
  refine ⟨f.conditions_eq_leaves, f.depth_eq_levels, rfl, ?_, fun _ => List.mem_eraseDups, horder⟩
  refine horder.imp fun hlt heq => ?_
  exact absurd hlt (heq ▸ Nat.lt_irrefl _)

end Formula
end Eligibility
