import Eligibility.Proofs.Infix.Reading

/-!
# Groups

Tokens that are read to their end alone do the same between parentheses, whatever the stacks hold
below.  The mark of the opening parenthesis keeps the connectives that wait below it from being
joined, and reading alone has never missed an operand, so no formula below it is used either.  This
holds of everything that is read, also of what is no expression.

**Results.**
* `Joins.frame`, `Pushes.frame`: one token above other stacks;
* `closeGroup_of_closeAll`: the closing parenthesis joins what the end of a rule would;
* `pushMany_group`: a whole rule between parentheses;
* `reads_joined`: two operands with a connective between them.
-/

namespace Eligibility
namespace Formula

open Phrase

variable {finished finished' below : Finished} {marks marks' outer : List Mark}

/-! ## Stacks below -/

theorem reduce_frame
    {k : Connective}
    (h : reduce k finished = .ok finished') :
    reduce k (finished ++ below) = .ok (finished' ++ below) := by
  match finished with
  | [] => simp [reduce] at h
  | [_] => simp [reduce] at h
  | (right, rightDepth) :: (left, leftDepth) :: more =>
      simp only [reduce] at h
      split at h
      · simp at h
      · rename_i hdepth
        rw [Except.ok.injEq] at h
        rw [← h, List.cons_append, List.cons_append, reduce]
        exact if_neg hdepth

/-- Joining uses nothing below what it uses alone. -/
theorem Joins.frame
    {p : Connective → Prop}
    (h : Joins p finished marks finished' marks') :
    Joins p (finished ++ below) (marks ++ outer) (finished' ++ below) (marks' ++ outer) := by
  induction h with
  | stop => exact .stop _ _
  | join hk hreduce more ih => exact .join hk (reduce_frame hreduce) ih

theorem Below.append_opening
    {strength : Nat}
    (h : Below strength marks) :
    Below strength (marks ++ .opening :: outer) := by
  match marks with
  | [] => exact below_opening _ _
  | .opening :: marks => exact below_opening _ _
  | .waiting k :: marks => exact below_waiting (h k marks rfl) _

/-- A token does not touch what lies below an open parenthesis. -/
theorem Pushes.frame
    {token : Token}
    (h : Pushes finished marks token finished' marks') :
    Pushes (finished ++ below) (marks ++ .opening :: outer) token
      (finished' ++ below) (marks' ++ .opening :: outer) := by
  cases h with
  | condition htext => exact .condition htext
  | opening => exact .opening _ _
  | closing hjoins => exact .closing hjoins.frame
  | connective hjoins hbelow => exact .connective hjoins.frame hbelow.append_opening

/-- The parenthesis that closes a group joins what the end of a rule would. -/
theorem closeGroup_of_closeAll
    (h : closeAll finished marks = .ok finished') :
    closeGroup (finished ++ below) (marks ++ .opening :: outer) =
      .ok (finished' ++ below, outer) :=
  closeGroup_eq_ok_iff.mpr (closeAll_eq_ok_iff.mp h).frame

/-! ## Between parentheses -/

/-- What is read to its end alone is read above other stacks up to a closing parenthesis. -/
theorem pushMany_group
    {ts : List Token}
    (h : pushAll finished marks ts = .ok finished') :
    pushMany (finished ++ below) (marks ++ .opening :: outer) (ts ++ [.closing]) =
      .ok (finished' ++ below, outer) := by
  induction ts generalizing finished marks with
  | nil =>
      rw [List.nil_append, pushMany_single, push_closing]
      exact closeGroup_of_closeAll h
  | cons token ts ih =>
      obtain ⟨between, marks', hpush, hrest⟩ := pushAll_cons_eq_ok_iff.mp h
      rw [List.cons_append, pushMany, push_eq_ok_iff.mpr hpush.frame]
      exact ih hrest

theorem reads_group_of_pushAll
    {ts : List Token} {f : Formula}
    (h : pushAll [] [] ts = .ok [(f, f.depth)])
    (hdepth : f.depth ≤ maxDepth) :
    Reads operand (.opening :: (ts ++ [.closing])) f := by
  intro finished marks
  calc pushMany finished marks (.opening :: (ts ++ [.closing]))
      = pushMany ([] ++ finished) ([] ++ .opening :: marks) (ts ++ [.closing]) := rfl
    _ = .ok ([(f, f.depth)] ++ finished, marks) := pushMany_group h
    _ = stacked f finished marks := (if_pos hdepth).symm

/-- Two operands are joined by the connective between them. -/
theorem reads_joined
    (k : Connective) {ts us : List Token} {f g : Formula}
    (hf : Reads operand ts f)
    (hg : Reads operand us g) :
    Reads expression (ts ++ .connective k :: us) (join k f g) := by
  have hterm {ts : List Token} {f : Formula} (h : Reads operand ts f) : Reads term ts f :=
    reads_single h
  cases k with
  | and => exact reads_single (reads_more (hterm hf) hg)
  | or => exact reads_more (reads_single (hterm hf)) (hterm hg)

end Formula
end Eligibility
