import Eligibility.Proofs.Condition.Reading
import Eligibility.Proofs.Formula.RuleText
import Eligibility.Proofs.Infix.Invariant
import Eligibility.Proofs.Infix.Placement
import Eligibility.Proofs.Stored.FirstOffence
import Eligibility.Stored.NamedRule

/-!
# Storable formulas

A formula that is no deeper than the limit and made of conditions that a rule text can express can be
written and stored, and read back from both.  Readers keep the limit in two ways: that of rules
measures each join from the formulas below it, that of stored nodes measures each node from the root
down.

**Results.**
* `Measured.reduce`, `storable_of_ofTokens`: the invariant of the reader of rules, and what it reads;
* `depth_and_writable_of_represents`, `storable_of_toFormula`: what a stored node stands for;
* `storable_of_readFormula`, `NamedRule.storable_of_ofJson`: what documents are read as.
-/

namespace Eligibility
namespace Formula

open Stored

/-- The formula can be stored and written as a rule text. -/
structure Storable (f : Formula) : Prop where
  depth_le : f.depth ≤ maxDepth
  check_eq_ok : ∀ c ∈ f.conditions, c.check = .ok c

theorem storable_iff
    {f : Formula} :
    f.Storable ↔ f.depth ≤ maxDepth ∧ f.Writable := by
  constructor
  · intro h
    exact ⟨h.depth_le, writable_of_check h.check_eq_ok⟩
  · rintro ⟨hdepth, hwritable⟩
    exact ⟨hdepth, fun c hc => Condition.check_eq_ok_iff.mpr ⟨rfl, hwritable c hc⟩⟩

theorem storable_leaf
    {c : Condition}
    (h : c.Writable) :
    (leaf c).Storable := by
  refine storable_iff.mpr ⟨?_, writable_leaf.mpr h⟩
  rw [depth_leaf]
  decide

theorem Storable.join
    {k : Connective} {left right : Formula}
    (hl : left.Storable)
    (hr : right.Storable)
    (hdepth : (join k left right).depth ≤ maxDepth) :
    (join k left right).Storable :=
  storable_iff.mpr
    ⟨hdepth, writable_join.mpr ⟨(storable_iff.mp hl).2, (storable_iff.mp hr).2⟩⟩

/-! ## Rules -/

/-- The finished formulas are storable and stand with their own depths. -/
def Measured (finished : Finished) : Prop :=
  ∀ f d, (f, d) ∈ finished → f.Storable ∧ d = f.depth

/-- A join of storable formulas is storable, and stands with its own depth. -/
theorem Measured.reduce
    {k : Connective} {finished finished' : Finished}
    (h : Measured finished)
    (hreduce : Formula.reduce k finished = .ok finished') :
    Measured finished' := by
  match finished with
  | [] => simp [Formula.reduce] at hreduce
  | [_] => simp [Formula.reduce] at hreduce
  | (right, rightDepth) :: (left, leftDepth) :: below =>
      obtain ⟨hright, rfl⟩ := h right rightDepth (by simp)
      obtain ⟨hleft, rfl⟩ := h left leftDepth (by simp)
      rw [reduce_eq] at hreduce
      split at hreduce
      · rename_i hdepth
        rw [Except.ok.injEq] at hreduce
        rw [← hreduce]
        intro f d hf
        rcases List.mem_cons.mp hf with hf | hf
        · obtain ⟨rfl, rfl⟩ := Prod.mk.inj hf
          exact ⟨hleft.join hright hdepth, rfl⟩
        · exact h f d (by simp [hf])
      · simp at hreduce

theorem measured_invariant : Invariant Measured where
  reduce := Measured.reduce
  condition := by
    intro text c finished h hread f d hf
    rcases List.mem_cons.mp hf with hf | hf
    · obtain ⟨rfl, rfl⟩ := Prod.mk.inj hf
      exact ⟨storable_leaf (Condition.writable_of_ofText hread), (depth_leaf c).symm⟩
    · exact h f d hf

/-- At the end of a rule that is read, its formula is alone on the stack, with its depth. -/
theorem pushAll_eq_ok_of_ofTokens
    {ts : List Token} {f : Formula}
    (h : ofTokens ts = .ok f) :
    pushAll [] [] ts = .ok [(f, f.depth)] ∧ f.Storable := by
  obtain ⟨d, hpush⟩ := pushAll_of_ofTokens h
  have hmeasured : Measured [(f, d)] :=
    pushAll_invariant measured_invariant (by simp [Measured]) hpush
  obtain ⟨hstorable, rfl⟩ := hmeasured f d (by simp)
  exact ⟨hpush, hstorable⟩

/-- What is read from tokens is within the limit, and all its conditions have been read from
texts. -/
theorem storable_of_ofTokens
    {ts : List Token} {f : Formula}
    (h : ofTokens ts = .ok f) :
    f.Storable :=
  (pushAll_eq_ok_of_ofTokens h).2

theorem storable_of_ofText
    {strict : Bool} {s : String} {f : Formula}
    (h : ofText strict s = .ok f) :
    f.Storable := by
  obtain ⟨ts, -, hread⟩ := ofText_eq_ok_iff.mp h
  exact storable_of_ofTokens hread

/-! ## Stored nodes -/

/-- What lies at a level has no more levels below it than the limit leaves. -/
theorem depth_and_writable_of_represents
    {n : Node} {level : Nat} {f : Formula}
    (h : n.Represents f)
    (hfine : ∀ p ∈ n.places level, Node.Fine p) :
    f.depth + level ≤ maxDepth + 1 ∧ f.Writable := by
  induction h generalizing level with
  | leaf hread =>
      have hlevel := (hfine _ List.mem_cons_self).level_le
      rw [depth_leaf, writable_leaf]
      exact ⟨by simp only at hlevel; omega, Condition.writable_of_ofText hread⟩
  | inner hl hr ihl ihr =>
      rw [Node.places_inner, List.forall_mem_cons, List.forall_mem_append] at hfine
      obtain ⟨hldepth, hlwritable⟩ := ihl hfine.2.1
      obtain ⟨hrdepth, hrwritable⟩ := ihr hfine.2.2
      rw [depth_join, writable_join]
      exact ⟨by omega, hlwritable, hrwritable⟩

theorem depth_and_writable_of_toFormulaAt
    {n : Node} {level : Nat} {f : Formula}
    (h : n.toFormulaAt level = .ok f) :
    f.depth + level ≤ maxDepth + 1 ∧ f.Writable := by
  rcases Node.toFormulaAt_cases level n with ⟨g, hok, hrepresents, hfine⟩ | ⟨fault, herror, -⟩
  · obtain rfl := Except.ok.inj (hok.symm.trans h)
    exact depth_and_writable_of_represents hrepresents hfine
  · simp [herror] at h

/-- A node is turned into a formula only within the limit, and its conditions are read from
texts. -/
theorem storable_of_toFormula
    {n : Node} {f : Formula}
    (h : n.toFormula = .ok f) :
    f.Storable := by
  obtain ⟨hdepth, hwritable⟩ := depth_and_writable_of_toFormulaAt h
  exact storable_iff.mpr ⟨by omega, hwritable⟩

theorem storable_of_readFormula
    {inside : Bool} {allowance : Json.Allowance} {d : Json.Document} {f : Formula}
    (h : readFormula inside allowance d = .ok f) :
    f.Storable := by
  unfold readFormula at h
  split at h
  · simp at h
  · split at h
    · rename_i hnode
      rw [Except.ok.injEq] at h
      exact storable_of_toFormula (h ▸ hnode)
    · simp at h

theorem storable_of_ofNode?
    {n : Option Node} {f : Formula}
    (h : ofNode? n = .ok f) :
    f.Storable := by
  cases n with
  | none => simp [ofNode?] at h
  | some n => exact storable_of_toFormula h

theorem storable_of_ofJson
    {s : String} {f : Formula}
    (h : ofJson s = .ok f) :
    f.Storable := by
  unfold ofJson at h
  split at h
  · exact storable_of_ofNode? h
  · simp at h

theorem storable_of_ofValue
    {v : Json.Value} {f : Formula}
    (h : ofValue v = .ok f) :
    f.Storable := by
  unfold ofValue at h
  split at h
  · exact storable_of_ofNode? h
  · simp at h

theorem storable_of_ofJsonWithin
    {allowance : Json.Allowance} {s : String} {f : Formula}
    (h : ofJsonWithin allowance s = .ok f) :
    f.Storable := by
  unfold ofJsonWithin at h
  simp only at h
  split at h
  · simp at h
  · rename_i hread
    split at h
    · rw [Except.ok.injEq] at h
      exact storable_of_readFormula (h ▸ hread)
    · simp at h

end Formula

namespace NamedRule

open Stored Json

theorem storable_of_readMembers
    {allowance : Allowance} {closed : Bool} {name : Option String} {formula : Option Formula}
    {members : List (Option String × Document)} {r : NamedRule}
    (hformula : ∀ f, formula = some f → f.Storable)
    (h : readMembers allowance closed name formula members = .ok r) :
    r.formula.Storable := by
  fun_induction readMembers allowance closed name formula members with
  | case1 name formula hclosed =>
      unfold ofParts at h
      split at h
      · rw [Except.ok.injEq] at h
        rw [← h]
        exact hformula _ rfl
      · simp at h
  | case3 formula d members text htext ih => exact ih hformula h
  | case6 name formula d members hnone f hread hkey ih =>
      refine ih ?_ h
      rintro g ⟨⟩
      exact Formula.storable_of_readFormula hread
  | case8 name formula key d members hname hast hkey ih => exact ih hformula h
  | _ => simp at h

theorem storable_of_readItems
    {allowance : Allowance} {closed : Bool} {items : List Document} {r : NamedRule}
    (h : readItems allowance closed items = .ok r) :
    r.formula.Storable := by
  unfold readItems at h
  split at h
  · split at h
    · simp at h
    · split at h
      · simp at h
      · rename_i hread
        split at h
        · rw [Except.ok.injEq] at h
          rw [← h]
          exact Formula.storable_of_readFormula hread
        · simp at h
  · simp at h

theorem storable_of_read
    {allowance : Allowance} {d : Document} {r : NamedRule}
    (h : read allowance d = .ok r) :
    r.formula.Storable := by
  unfold read at h
  split at h
  · split at h
    · exact storable_of_readMembers (by simp) h
    · simp at h
  · split at h
    · exact storable_of_readItems h
    · simp at h
  · simp at h

theorem storable_of_ofJsonWithin
    {allowance : Allowance} {s : String} {r : NamedRule}
    (h : ofJsonWithin allowance s = .ok r) :
    r.formula.Storable := by
  unfold ofJsonWithin at h
  simp only at h
  split at h
  · simp at h
  · rename_i hread
    split at h
    · rw [Except.ok.injEq] at h
      exact storable_of_read (h ▸ hread)
    · simp at h

theorem storable_of_ofJson
    {s : String} {r : NamedRule}
    (h : ofJson s = .ok r) :
    r.formula.Storable := by
  unfold ofJson at h
  split at h
  · simp at h
  · exact storable_of_ofJsonWithin h

end NamedRule
end Eligibility
