import Eligibility.Json.Value

/-!
# How deeply texts and values nest

The nesting of a text is the largest number of brackets and braces that are open at once, those
inside quotes not counted.  It is read off the characters alone, whether or not they spell a
document, so a text that nests too deeply can be refused before it is read.

The nesting of a value is found with a stack of pending values, each with the level that it lies at,
so that no nesting is too much for the measure itself.

**Results.**
* `Value.deepest_le_iff`: what stays within a bound is what lies below the pending values, in
  whatever order they are pending;
* `Value.nesting_eq_levels`: the nesting of a value by recursion.
-/

namespace Eligibility
namespace Json

/-! ## Texts -/

/-- Where a character of a text stands. -/
inductive Place
  | outside
  | quoted
  | afterBackslash
deriving DecidableEq, Inhabited, Repr

/-- The nesting of the rest of a text, given where it starts, how many containers are open there and
the largest number so far. -/
def nestingFrom (place : Place) (opened deepest : Nat) : List Char → Nat
  | [] => deepest
  | c :: cs =>
    match place with
    | .afterBackslash => nestingFrom .quoted opened deepest cs
    | .quoted =>
      if c = '\\' then nestingFrom .afterBackslash opened deepest cs
      else if c = '"' then nestingFrom .outside opened deepest cs
      else nestingFrom .quoted opened deepest cs
    | .outside =>
      if c = '"' then nestingFrom .quoted opened deepest cs
      else if c = '\x7b' ∨ c = '[' then
        nestingFrom .outside (opened + 1) (max deepest (opened + 1)) cs
      else if c = '\x7d' ∨ c = ']' then nestingFrom .outside (opened - 1) deepest cs
      else nestingFrom .outside opened deepest cs

/-- The largest number of containers that are open at once in a text. -/
def textNesting (s : String) : Nat :=
  nestingFrom .outside 0 0 s.toList

/-! ## Values -/

namespace Value

/-- The values of the members of an object. -/
def values (members : List (String × Value)) : List Value :=
  members.map Prod.snd

/-- Puts values that lie at one level on top of the pending ones, the last of them first. -/
def push (level : Nat) (pending : List (Value × Nat)) (vs : List Value) : List (Value × Nat) :=
  vs.foldl (fun pending v => (v, level) :: pending) pending

theorem push_cons (level : Nat) (pending : List (Value × Nat)) (v : Value) (vs : List Value) :
    push level pending (v :: vs) = push level ((v, level) :: pending) vs :=
  rfl

mutual

/-- The number of values in a value, itself included. -/
def size : Value → Nat
  | list items => sizes items + 1
  | object members => memberSizes members + 1
  | _ => 1
termination_by structural v => v

/-- The number of values in several values. -/
def sizes : List Value → Nat
  | [] => 0
  | v :: vs => v.size + sizes vs
termination_by structural items => items

/-- The number of values in several members. -/
def memberSizes : List (String × Value) → Nat
  | [] => 0
  | (_, v) :: ms => v.size + memberSizes ms
termination_by structural members => members

end

theorem size_pos (v : Value) : 0 < v.size := by
  cases v <;> exact Nat.succ_pos _

theorem memberSizes_eq (members : List (String × Value)) :
    memberSizes members = sizes (values members) := by
  induction members with
  | nil => rfl
  | cons m ms ih => exact congrArg (m.2.size + ·) ih

/-- Pushing values adds their sizes to those of the pending ones. -/
theorem sizes_push (level : Nat) (pending : List (Value × Nat)) (vs : List Value) :
    sizes ((push level pending vs).map Prod.fst) = sizes vs + sizes (pending.map Prod.fst) := by
  induction vs generalizing pending with
  | nil => rw [push, List.foldl_nil, sizes, Nat.zero_add]
  | cons v vs ih =>
    simp only [push_cons, ih, List.map_cons, sizes]
    omega

/-- The deepest level of a list or an object at or below pending values that are given with their
own levels. -/
def deepest (reached : Nat) : List (Value × Nat) → Nat
  | [] => reached
  | (list items, level) :: pending => deepest (max reached level) (push (level + 1) pending items)
  | (object members, level) :: pending =>
    deepest (max reached level) (push (level + 1) pending (values members))
  | _ :: pending => deepest reached pending
termination_by pending => sizes (pending.map Prod.fst)
decreasing_by
  · simp only [sizes_push, List.map_cons, sizes, size]
    omega
  · simp only [sizes_push, List.map_cons, sizes, size, memberSizes_eq]
    omega
  · rw [List.map_cons, sizes]
    exact Nat.lt_add_of_pos_left (size_pos _)

/-- The largest number of lists and objects of a value that lie inside one another. -/
def nesting (v : Value) : Nat :=
  deepest 0 [(v, 1)]

/-! ### The nesting by recursion -/

theorem forall_mem_push_iff
    {P : Value × Nat → Prop} {level : Nat} {pending : List (Value × Nat)} {vs : List Value} :
    (∀ p ∈ push level pending vs, P p) ↔ (∀ p ∈ pending, P p) ∧ ∀ v ∈ vs, P (v, level) := by
  induction vs generalizing pending with
  | nil => simp [push]
  | cons v vs ih =>
    rw [push_cons, ih, List.forall_mem_cons, List.forall_mem_cons, and_assoc, and_left_comm]

theorem itemsLevels_le_iff
    {vs : List Value} {n : Nat} :
    itemsLevels vs ≤ n ↔ ∀ v ∈ vs, v.levels ≤ n := by
  induction vs with
  | nil => simp [itemsLevels]
  | cons v vs ih => rw [itemsLevels, Nat.max_le, ih, List.forall_mem_cons]

theorem membersLevels_eq (members : List (String × Value)) :
    membersLevels members = itemsLevels (values members) := by
  induction members with
  | nil => rfl
  | cons m ms ih => exact congrArg (max m.2.levels) ih

/-- Whether a bound holds of the levels at and below a pending value; a value that is no container
does not count. -/
def Within (n : Nat) (p : Value × Nat) : Prop :=
  p.1.levels = 0 ∨ p.1.levels + p.2 ≤ n + 1

/-- A container is within a bound if its own level is and what it holds is one level further down. -/
theorem within_container_iff
    {level n : Nat} {vs : List Value} :
    (level ≤ n ∧ ∀ v ∈ vs, Within n (v, level + 1)) ↔ itemsLevels vs + 1 + level ≤ n + 1 := by
  have hshift (v : Value) (hlevel : level ≤ n) :
      Within n (v, level + 1) ↔ v.levels ≤ n - level := by
    simp only [Within]
    omega
  constructor
  · rintro ⟨hlevel, hvs⟩
    have hle : itemsLevels vs ≤ n - level :=
      itemsLevels_le_iff.mpr fun v hv => (hshift v hlevel).mp (hvs v hv)
    omega
  · intro h
    have hlevel : level ≤ n := by omega
    have hle : itemsLevels vs ≤ n - level := by omega
    exact ⟨hlevel, fun v hv => (hshift v hlevel).mpr (itemsLevels_le_iff.mp hle v hv)⟩

/-- A container is taken off the pending values for the values in it. -/
theorem within_push_iff
    {reached level n : Nat} {vs : List Value} {v : Value} {pending : List (Value × Nat)}
    (hv : v.levels = itemsLevels vs + 1) :
    (max reached level ≤ n ∧ ∀ p ∈ push (level + 1) pending vs, Within n p) ↔
      reached ≤ n ∧ ∀ p ∈ (v, level) :: pending, Within n p := by
  have hwithin : Within n (v, level) ↔ itemsLevels vs + 1 + level ≤ n + 1 := by
    simp [Within, hv]
  rw [Nat.max_le, forall_mem_push_iff, List.forall_mem_cons, hwithin, ← within_container_iff]
  simp only [and_assoc, and_comm]

/-- What the loop finds stays within a bound if what was reached before and all pending values do. -/
theorem deepest_le_iff
    {reached n : Nat} {pending : List (Value × Nat)} :
    deepest reached pending ≤ n ↔ reached ≤ n ∧ ∀ p ∈ pending, Within n p := by
  fun_induction deepest reached pending with
  | case1 reached => simp
  | case2 reached items level pending ih => exact ih.trans (within_push_iff rfl)
  | case3 reached members level pending ih =>
    exact ih.trans (within_push_iff (congrArg (· + 1) (membersLevels_eq members)))
  | case4 reached p pending hlist hobject ih =>
    obtain ⟨v, level⟩ := p
    have hv : v.levels = 0 := by
      cases v with
      | list items => exact absurd rfl (hlist items level)
      | object members => exact absurd rfl (hobject members level)
      | _ => rfl
    have hwithin : Within n (v, level) := .inl hv
    simp only [ih, List.forall_mem_cons, hwithin, true_and]

/-- The loop over pending values and the recursion count the same levels. -/
theorem nesting_eq_levels (v : Value) : v.nesting = v.levels := by
  have hle (n : Nat) : v.nesting ≤ n ↔ v.levels ≤ n := by
    rw [nesting, deepest_le_iff, List.forall_mem_singleton]
    simp only [Within]
    omega
  exact Nat.le_antisymm ((hle _).mpr (Nat.le_refl _)) ((hle _).mp (Nat.le_refl _))

end Value
end Json
end Eligibility
