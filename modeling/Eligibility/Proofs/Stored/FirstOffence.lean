import Eligibility.Stored.Node

/-!
# Which nodes are formulas

A stored node has a place for everything that some node may hold, and what it holds need not make
sense.  It stands for a formula if every node that is looked at is on an allowed level and filled in as
its kind asks for.  Otherwise the first node that is not, a node before its left child and that before
its right child, decides which fault is reported.

**Results.**
* `fine_or_offends`, `Offends.not_fine`, `Offends.unique`: a place is fine or has one offence;
* `firstOffence_append_iff`: the first offence in two lists of places;
* `toFormulaAt_cases`: what a node at a level is turned into;
* `toFormula_exact`: the nodes that are formulas, the formulas that they are, and the faults of all
  others.
-/

namespace Eligibility
namespace Stored
namespace Node

mutual

/-- The nodes that are looked at, with their levels: a node, then those from its left child on, then
those from its right child on.  What hangs below a leaf is not looked at. -/
def places (level : Nat) : Node → List (Nat × Node)
  | mk .leaf connective value left right => [(level, mk .leaf connective value left right)]
  | mk .inner connective value left right =>
    (level, mk .inner connective value left right) ::
      (childPlaces (level + 1) left ++ childPlaces (level + 1) right)
termination_by structural n => n

/-- The nodes that are looked at from a child on, if there is one. -/
def childPlaces (level : Nat) : Option Node → List (Nat × Node)
  | none => []
  | some n => n.places level
termination_by structural child => child

end

/-- The node has the shape, the connectives and the conditions of the formula. -/
inductive Represents : Node → Formula → Prop
  | leaf {connective : Option Connective} {text : String} {c : Condition}
      (h : Condition.ofText text = .ok c) :
      Represents (mk .leaf connective (some text) none none) (.leaf c)
  | inner {k : Connective} {value : Option String} {left right : Node} {f g : Formula}
      (hl : Represents left f) (hr : Represents right g) :
      Represents (mk .inner (some k) value (some left) (some right)) (.join k f g)

/-- The node is filled in as its kind asks for: a leaf has a condition and no children, an inner node
has a connective and both children. -/
inductive Filled : Node → Prop
  | leaf {connective : Option Connective} {text : String} {c : Condition}
      (h : Condition.ofText text = .ok c) :
      Filled (mk .leaf connective (some text) none none)
  | inner {k : Connective} {value : Option String} {left right : Node} :
      Filled (mk .inner (some k) value (some left) (some right))

/-- There is nothing wrong with a node on a level. -/
structure Fine (place : Nat × Node) : Prop where
  level_le : place.1 ≤ Formula.maxDepth
  filled : place.2.Filled

/-- What is wrong with a node on a level, whatever else may be wrong with it. -/
inductive Offends : Nat × Node → Fault → Prop
  | tooDeep {level : Nat} {n : Node} (hlevel : Formula.maxDepth < level) :
      Offends (level, n) (.tooDeep Formula.maxDepth)
  | leafWithChildren {level : Nat} {connective : Option Connective} {value : Option String}
      {left right : Option Node} (hlevel : level ≤ Formula.maxDepth)
      (h : left ≠ none ∨ right ≠ none) :
      Offends (level, mk .leaf connective value left right) .leafWithChildren
  | leafWithoutValue {level : Nat} {connective : Option Connective}
      (hlevel : level ≤ Formula.maxDepth) :
      Offends (level, mk .leaf connective none none none) .leafWithoutValue
  | badCondition {level : Nat} {connective : Option Connective} {text : String} {fault : Fault}
      (hlevel : level ≤ Formula.maxDepth) (h : Condition.ofText text = .error fault) :
      Offends (level, mk .leaf connective (some text) none none) fault
  | nodeWithoutConnective {level : Nat} {value : Option String} {left right : Option Node}
      (hlevel : level ≤ Formula.maxDepth) :
      Offends (level, mk .inner none value left right) .nodeWithoutConnective
  | missingChild {level : Nat} {k : Connective} {value : Option String}
      {left right : Option Node} (hlevel : level ≤ Formula.maxDepth)
      (h : left = none ∨ right = none) :
      Offends (level, mk .inner (some k) value left right) (.missingChild k)

theorem fine_iff
    {place : Nat × Node} :
    Fine place ↔ place.1 ≤ Formula.maxDepth ∧ place.2.Filled :=
  ⟨fun h => ⟨h.level_le, h.filled⟩, fun h => ⟨h.1, h.2⟩⟩

/-- The fault is that of the first place with which something is wrong. -/
def FirstOffence (places : List (Nat × Node)) (fault : Fault) : Prop :=
  ∃ before place after, places = before ++ place :: after ∧ (∀ p ∈ before, Fine p) ∧
    Offends place fault

/-! ## One place -/

/-- At every place nothing is wrong, or one thing is. -/
theorem fine_or_offends (place : Nat × Node) : Fine place ∨ ∃ fault, Offends place fault := by
  obtain ⟨level, kind, connective, value, left, right⟩ := place
  by_cases hlevel : level ≤ Formula.maxDepth
  · cases kind with
    | leaf =>
        by_cases hchildren : left ≠ none ∨ right ≠ none
        · exact .inr ⟨_, .leafWithChildren hlevel hchildren⟩
        · obtain ⟨rfl, rfl⟩ : left = none ∧ right = none := by simpa using hchildren
          cases value with
          | none => exact .inr ⟨_, .leafWithoutValue hlevel⟩
          | some text =>
              cases h : Condition.ofText text with
              | ok c => exact .inl ⟨hlevel, .leaf h⟩
              | error fault => exact .inr ⟨_, .badCondition hlevel h⟩
    | inner =>
        cases connective with
        | none => exact .inr ⟨_, .nodeWithoutConnective hlevel⟩
        | some k =>
            cases left with
            | none => exact .inr ⟨_, .missingChild hlevel (.inl rfl)⟩
            | some l =>
                cases right with
                | none => exact .inr ⟨_, .missingChild hlevel (.inr rfl)⟩
                | some r => exact .inl ⟨hlevel, .inner⟩
  · exact .inr ⟨_, .tooDeep (Nat.not_le.mp hlevel)⟩

theorem Offends.not_fine
    {place : Nat × Node} {fault : Fault}
    (h : Offends place fault) :
    ¬ Fine place := by
  rintro ⟨hle, hfilled⟩
  cases h with
  | tooDeep hlevel => exact Nat.not_le.mpr hlevel hle
  | leafWithChildren hlevel h => cases hfilled; simp at h
  | leafWithoutValue hlevel => cases hfilled
  | badCondition hlevel h =>
      cases hfilled with
      | leaf hok => simp [h] at hok
  | nodeWithoutConnective hlevel => cases hfilled
  | missingChild hlevel h => cases hfilled; simp at h

/-- What comes first in the order of checks hides what comes later. -/
theorem Offends.unique
    {place : Nat × Node} {fault other : Fault}
    (h : Offends place fault)
    (hother : Offends place other) :
    fault = other := by
  cases h with
  | tooDeep hlevel =>
      cases hother with
      | tooDeep => rfl
      | _ hle => exact absurd hlevel (Nat.not_lt.mpr hle)
  | leafWithChildren hle h =>
      cases hother with
      | tooDeep hlevel => exact absurd hlevel (Nat.not_lt.mpr hle)
      | leafWithChildren => rfl
      | leafWithoutValue => simp at h
      | badCondition => simp at h
  | leafWithoutValue hle =>
      cases hother with
      | tooDeep hlevel => exact absurd hlevel (Nat.not_lt.mpr hle)
      | leafWithChildren _ h => simp at h
      | leafWithoutValue => rfl
  | badCondition hle h =>
      cases hother with
      | tooDeep hlevel => exact absurd hlevel (Nat.not_lt.mpr hle)
      | leafWithChildren _ h => simp at h
      | badCondition _ h' => exact Except.error.inj (h.symm.trans h')
  | nodeWithoutConnective hle =>
      cases hother with
      | tooDeep hlevel => exact absurd hlevel (Nat.not_lt.mpr hle)
      | nodeWithoutConnective => rfl
  | missingChild hle h =>
      cases hother with
      | tooDeep hlevel => exact absurd hlevel (Nat.not_lt.mpr hle)
      | missingChild => rfl

/-! ## The first of several places -/

theorem not_firstOffence_nil (fault : Fault) : ¬ FirstOffence [] fault := by
  rintro ⟨before, place, after, hsplit, -, -⟩
  simp at hsplit

theorem firstOffence_cons_iff
    {place : Nat × Node} {places : List (Nat × Node)} {fault : Fault} :
    FirstOffence (place :: places) fault ↔
      Offends place fault ∨ Fine place ∧ FirstOffence places fault := by
  constructor
  · rintro ⟨before, p, after, hsplit, hbefore, hp⟩
    cases before with
    | nil =>
        obtain ⟨rfl, -⟩ := List.cons.inj hsplit
        exact .inl hp
    | cons first before =>
        obtain ⟨rfl, rfl⟩ := List.cons.inj hsplit
        obtain ⟨hfirst, hbefore⟩ := List.forall_mem_cons.mp hbefore
        exact .inr ⟨hfirst, before, p, after, rfl, hbefore, hp⟩
  · rintro (hp | ⟨hfirst, before, p, after, rfl, hbefore, hp⟩)
    · exact ⟨[], place, places, rfl, by simp, hp⟩
    · exact ⟨place :: before, p, after, rfl, List.forall_mem_cons.mpr ⟨hfirst, hbefore⟩, hp⟩

/-- Places in a first list come before those in a second one. -/
theorem firstOffence_append_iff
    {first second : List (Nat × Node)} {fault : Fault} :
    FirstOffence (first ++ second) fault ↔
      FirstOffence first fault ∨ (∀ p ∈ first, Fine p) ∧ FirstOffence second fault := by
  induction first with
  | nil => simp [not_firstOffence_nil]
  | cons place first ih =>
      rw [List.cons_append, firstOffence_cons_iff, firstOffence_cons_iff, ih,
        List.forall_mem_cons, and_or_left, or_assoc, and_assoc]

theorem FirstOffence.not_fine
    {places : List (Nat × Node)} {fault : Fault}
    (h : FirstOffence places fault) :
    ¬ ∀ p ∈ places, Fine p := by
  obtain ⟨before, place, after, rfl, -, hplace⟩ := h
  exact fun hfine => hplace.not_fine (hfine place (by simp))

theorem FirstOffence.unique
    {places : List (Nat × Node)} {fault other : Fault}
    (h : FirstOffence places fault)
    (hother : FirstOffence places other) :
    fault = other := by
  induction places with
  | nil => exact absurd h (not_firstOffence_nil fault)
  | cons place places ih =>
      rw [firstOffence_cons_iff] at h hother
      rcases h with h | ⟨hfine, h⟩
      · exact h.unique (hother.resolve_right fun hother => h.not_fine hother.1)
      · exact ih h (hother.resolve_left fun hother => hother.not_fine hfine).2

/-! ## The tree of a node -/

theorem places_inner
    (level : Nat) (k : Connective) (value : Option String) (left right : Node) :
    (mk .inner (some k) value (some left) (some right)).places level =
      (level, mk .inner (some k) value (some left) (some right)) ::
        (left.places (level + 1) ++ right.places (level + 1)) := rfl

theorem exists_places_eq
    (level : Nat) (n : Node) :
    ∃ below, n.places level = (level, n) :: below := by
  obtain ⟨kind, connective, value, left, right⟩ := n
  cases kind with
  | leaf => exact ⟨_, rfl⟩
  | inner => exact ⟨_, rfl⟩

/-- What is wrong with a node itself is what is reported of its tree. -/
theorem Offends.firstOffence
    {level : Nat} {n : Node} {fault : Fault}
    (h : Offends (level, n) fault) :
    FirstOffence (n.places level) fault := by
  obtain ⟨below, hplaces⟩ := exists_places_eq level n
  rw [hplaces, firstOffence_cons_iff]
  exact .inl h

/-- A node is turned into the formula that it represents, or refused for the first offence in it. -/
theorem toFormulaAt_cases
    (level : Nat) (n : Node) :
    (∃ f, n.toFormulaAt level = .ok f ∧ n.Represents f ∧ ∀ p ∈ n.places level, Fine p) ∨
      ∃ fault, n.toFormulaAt level = .error fault ∧ FirstOffence (n.places level) fault := by
  fun_induction toFormulaAt level n with
  | case1 level connective value left right hlevel =>
      exact .inr ⟨_, rfl, Offends.firstOffence (.tooDeep hlevel)⟩
  | case2 level connective value left right hlevel hchildren =>
      have hsome : left ≠ none ∨ right ≠ none := by
        simpa [Option.isSome_iff_ne_none] using hchildren
      exact .inr ⟨_, rfl, Offends.firstOffence (.leafWithChildren (Nat.not_lt.mp hlevel) hsome)⟩
  | case3 level connective left right hlevel hchildren =>
      obtain ⟨rfl, rfl⟩ : left = none ∧ right = none := by simpa using hchildren
      exact .inr ⟨_, rfl, Offends.firstOffence (.leafWithoutValue (Nat.not_lt.mp hlevel))⟩
  | case4 level connective left right hlevel hchildren text c htext =>
      obtain ⟨rfl, rfl⟩ : left = none ∧ right = none := by simpa using hchildren
      refine .inl ⟨_, rfl, .leaf htext, ?_⟩
      simpa [places] using ⟨Nat.not_lt.mp hlevel, Filled.leaf htext⟩
  | case5 level connective left right hlevel hchildren text fault htext =>
      obtain ⟨rfl, rfl⟩ : left = none ∧ right = none := by simpa using hchildren
      exact .inr ⟨_, rfl, Offends.firstOffence (.badCondition (Nat.not_lt.mp hlevel) htext)⟩
  | case6 level connective value left right hlevel =>
      exact .inr ⟨_, rfl, Offends.firstOffence (.tooDeep hlevel)⟩
  | case7 level value left right hlevel =>
      exact .inr ⟨_, rfl, Offends.firstOffence (.nodeWithoutConnective (Nat.not_lt.mp hlevel))⟩
  | case8 level value left right hlevel k fault hleft ih =>
      obtain ⟨_, hfault, hfirst⟩ := ih.resolve_left (by simp [hleft])
      obtain rfl := Except.error.inj (hleft.symm.trans hfault)
      refine .inr ⟨_, rfl, ?_⟩
      rw [places_inner, firstOffence_cons_iff, firstOffence_append_iff]
      exact .inr ⟨⟨Nat.not_lt.mp hlevel, .inner⟩, .inl hfirst⟩
  | case9 level value left right hlevel k f hleft fault hright ihl ihr =>
      obtain ⟨_, -, -, hfine⟩ := ihl.resolve_right (by simp [hleft])
      obtain ⟨_, hfault, hfirst⟩ := ihr.resolve_left (by simp [hright])
      obtain rfl := Except.error.inj (hright.symm.trans hfault)
      refine .inr ⟨_, rfl, ?_⟩
      rw [places_inner, firstOffence_cons_iff, firstOffence_append_iff]
      exact .inr ⟨⟨Nat.not_lt.mp hlevel, .inner⟩, .inr ⟨hfine, hfirst⟩⟩
  | case10 level value left right hlevel k f hleft g hright ihl ihr =>
      obtain ⟨_, hf, hreprl, hfinel⟩ := ihl.resolve_right (by simp [hleft])
      obtain ⟨_, hg, hreprr, hfiner⟩ := ihr.resolve_right (by simp [hright])
      obtain rfl := Except.ok.inj (hleft.symm.trans hf)
      obtain rfl := Except.ok.inj (hright.symm.trans hg)
      refine .inl ⟨_, rfl, .inner hreprl hreprr, ?_⟩
      rw [places_inner, List.forall_mem_cons, List.forall_mem_append]
      exact ⟨⟨Nat.not_lt.mp hlevel, .inner⟩, hfinel, hfiner⟩
  | case11 level connective value left right hmissing hlevel =>
      exact .inr ⟨_, rfl, Offends.firstOffence (.tooDeep hlevel)⟩
  | case12 level value left right hmissing hlevel =>
      exact .inr ⟨_, rfl, Offends.firstOffence (.nodeWithoutConnective (Nat.not_lt.mp hlevel))⟩
  | case13 level value left right hmissing hlevel k =>
      have hnone : left = none ∨ right = none := by
        cases left with
        | none => exact .inl rfl
        | some l =>
            cases right with
            | none => exact .inr rfl
            | some r => exact absurd rfl (hmissing l r rfl)
      exact .inr ⟨_, rfl, Offends.firstOffence (.missingChild (Nat.not_lt.mp hlevel) hnone)⟩

theorem Represents.unique
    {n : Node} {f g : Formula}
    (hf : n.Represents f)
    (hg : n.Represents g) :
    f = g := by
  induction hf generalizing g with
  | leaf h =>
      cases hg with
      | leaf h' => rw [Except.ok.inj (h.symm.trans h')]
  | inner hl hr ihl ihr =>
      cases hg with
      | inner hl' hr' => rw [ihl hl', ihr hr']

/-- **The nodes that are formulas.**  A node is turned into a formula exactly if every node that is
looked at is on an allowed level and filled in as its kind asks for, and then into the formula with its
shape, its connectives and its conditions.  Otherwise the fault is what is wrong with the first of them
with which something is wrong. -/
theorem toFormula_exact (n : Node) :
    ((∃ f, n.toFormula = .ok f) ↔
      ∀ p ∈ n.places 1, p.1 ≤ Formula.maxDepth ∧ p.2.Filled) ∧
    (∀ f, n.toFormula = .ok f ↔
      (∀ p ∈ n.places 1, p.1 ≤ Formula.maxDepth ∧ p.2.Filled) ∧ n.Represents f) ∧
    (∀ fault, n.toFormula = .error fault ↔ FirstOffence (n.places 1) fault) := by
  simp only [toFormula, ← fine_iff]
  rcases toFormulaAt_cases 1 n with ⟨f, hok, hrepr, hfine⟩ | ⟨fault, herror, hfirst⟩
  · refine ⟨iff_of_true ⟨f, hok⟩ hfine, fun g => ?_, fun fault => ?_⟩
    · rw [hok, Except.ok.injEq]
      exact ⟨fun h => h ▸ ⟨hfine, hrepr⟩, fun h => hrepr.unique h.2⟩
    · rw [hok]
      exact iff_of_false (by simp) fun h => h.not_fine hfine
  · have hnot := hfirst.not_fine
    refine ⟨iff_of_false (by simp [herror]) hnot, fun g => ?_, fun other => ?_⟩
    · rw [herror]
      exact iff_of_false (by simp) fun h => hnot h.1
    · rw [herror, Except.error.injEq]
      exact ⟨fun h => h ▸ hfirst, fun h => hfirst.unique h⟩

/-- What a node lacks itself is reported before what its left child lacks. -/
example :
    toFormula (mk .inner (some .or) none (some (mk .leaf none none none none)) none) =
      .error (.missingChild .or) := rfl

end Node
end Stored
end Eligibility
