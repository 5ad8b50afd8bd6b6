import Eligibility.Proofs.Infix.Grammar
import Eligibility.Proofs.Infix.Steps
import Mathlib.Control.Monad.Basic

/-!
# Reading expressions with two stacks

The reader of rules keeps finished formulas and marks.  Connectives are joined late, only when what
follows them closes them, so after a chain some of its connectives may still wait.  The invariant is
therefore stated up to closing: after the tokens of a chain, closing what binds at least as tightly
as its connective leaves the stacks as they were, with the one formula of the chain on top.

**Results.**
* `yieldTo_bind`: joining early changes nothing that is joined later;
* `reads_of_spells`: the invariant, by induction on the grammar;
* `ofTokens_of_spells`: an expression is read as its formula, or refused where that is too deep.
-/

namespace Eligibility
namespace Formula

open Phrase

/-- Takes some tokens into account, without ending the rule. -/
def pushMany : Finished → List Mark → List Token → Except Fault (Finished × List Mark)
  | finished, marks, [] => .ok (finished, marks)
  | finished, marks, token :: tokens =>
    (push finished marks token).bind fun s => pushMany s.1 s.2 tokens

/-- The stacks with one more formula, unless it is too deep. -/
def stacked (f : Formula) (finished : Finished) (marks : List Mark) :
    Except Fault (Finished × List Mark) :=
  if f.depth ≤ maxDepth then .ok ((f, f.depth) :: finished, marks) else .error (.tooDeep maxDepth)

/-- No connective is as strong as an operand. -/
theorem below_operand (marks : List Mark) : Below operand.strength marks := by
  intro k more _
  cases k <;> decide

/-! ## Closing early -/

theorem yieldTo_of_below
    {k : Connective} {marks : List Mark}
    (h : Below k.precedence marks)
    (finished : Finished) :
    yieldTo k finished marks = .ok (finished, marks) := by
  match marks with
  | [] => rfl
  | .opening :: marks => rfl
  | .waiting j :: marks =>
      rw [yieldTo, if_pos (h j marks rfl)]

/-- Whatever joins the waiting connectives that bind at least as tightly as an incoming one gives
the same result if these have been joined before. -/
theorem yieldTo_bind
    {α : Type} {k : Connective} {close : Finished → List Mark → Except Fault α}
    (hclose : ∀ i finished marks, k.precedence ≤ i.precedence →
      close finished (.waiting i :: marks) =
        (reduce i finished).bind fun finished => close finished marks)
    (finished : Finished) (marks : List Mark) :
    (yieldTo k finished marks).bind (fun s => close s.1 s.2) = close finished marks := by
  induction marks generalizing finished with
  | nil => rfl
  | cons mark marks ih =>
      cases mark with
      | opening => rfl
      | waiting i =>
          by_cases hik : i.precedence < k.precedence
          · rw [yieldTo, if_pos hik]
            rfl
          · rw [yieldTo, if_neg hik, hclose i finished marks (Nat.not_lt.mp hik)]
            cases reduce i finished with
            | error fault => rfl
            | ok finished => exact ih finished

theorem yieldTo_yieldTo
    {j k : Connective}
    (hkj : k.precedence ≤ j.precedence)
    (finished : Finished) (marks : List Mark) :
    (yieldTo j finished marks).bind (fun s => yieldTo k s.1 s.2) = yieldTo k finished marks := by
  refine yieldTo_bind ?_ finished marks
  intro i finished marks hji
  have hik : ¬ i.precedence < k.precedence := by omega
  rw [yieldTo, if_neg hik]
  cases reduce i finished <;> rfl

theorem closeGroup_yieldTo
    (k : Connective) (finished : Finished) (marks : List Mark) :
    (yieldTo k finished marks).bind (fun s => closeGroup s.1 s.2) = closeGroup finished marks := by
  refine yieldTo_bind ?_ finished marks
  intro i finished marks _
  rw [closeGroup]
  cases reduce i finished <;> rfl

theorem closeAll_yieldTo
    (k : Connective) (finished : Finished) (marks : List Mark) :
    (yieldTo k finished marks).bind (fun s => closeAll s.1 s.2) = closeAll finished marks := by
  refine yieldTo_bind ?_ finished marks
  intro i finished marks _
  rw [closeAll]
  cases reduce i finished <;> rfl

/-! ## One step and many -/

theorem push_closing (finished : Finished) (marks : List Mark) :
    push finished marks .closing = closeGroup finished marks := rfl

theorem push_connective
    (k : Connective) (finished : Finished) (marks : List Mark) :
    push finished marks (.connective k) =
      (yieldTo k finished marks).bind fun s => .ok (s.1, .waiting k :: s.2) := by
  rw [push]
  cases yieldTo k finished marks <;> rfl

theorem pushMany_append
    (finished : Finished) (marks : List Mark) (ts us : List Token) :
    pushMany finished marks (ts ++ us) =
      (pushMany finished marks ts).bind fun s => pushMany s.1 s.2 us := by
  induction ts generalizing finished marks with
  | nil => rfl
  | cons token ts ih =>
      rw [List.cons_append, pushMany, pushMany]
      cases push finished marks token with
      | error fault => rfl
      | ok s => exact ih s.1 s.2

theorem pushMany_single
    (finished : Finished) (marks : List Mark) (token : Token) :
    pushMany finished marks [token] = push finished marks token := by
  rw [pushMany]
  cases push finished marks token <;> rfl

theorem pushAll_eq
    (finished : Finished) (marks : List Mark) (ts : List Token) :
    pushAll finished marks ts =
      (pushMany finished marks ts).bind fun s => closeAll s.1 s.2 := by
  induction ts generalizing finished marks with
  | nil => rfl
  | cons token ts ih =>
      rw [pushAll, pushMany]
      cases push finished marks token with
      | error fault => rfl
      | ok s => exact ih s.1 s.2

/-- The depths on the stack are those of the formulas, so joining measures the join. -/
theorem reduce_eq
    (k : Connective) (f g : Formula) (finished : Finished) :
    reduce k ((g, g.depth) :: (f, f.depth) :: finished) =
      if (join k f g).depth ≤ maxDepth then .ok ((join k f g, (join k f g).depth) :: finished)
      else .error (.tooDeep maxDepth) := by
  have hdepth : 1 + max f.depth g.depth = (join k f g).depth := by
    rw [depth_join]
    omega
  simp only [reduce, hdepth]
  by_cases h : (join k f g).depth ≤ maxDepth
  · rw [if_pos h, if_neg (by omega)]
  · rw [if_neg h, if_pos (by omega)]

theorem stacked_bind_yieldTo
    {k : Connective} {marks : List Mark}
    (h : Below k.precedence marks)
    (f : Formula) (finished : Finished) :
    (stacked f finished marks).bind (fun s => yieldTo k s.1 s.2) = stacked f finished marks := by
  unfold stacked
  split
  · exact yieldTo_of_below h _
  · rfl

/-- Two formulas with their connective waiting between them close to their join. -/
theorem stacked_bind_join
    {k : Connective} {marks : List Mark}
    (h : Below k.precedence marks)
    (f g : Formula) (finished : Finished) :
    ((stacked f finished marks).bind fun s => stacked g s.1 (.waiting k :: s.2)).bind
        (fun s => yieldTo k s.1 s.2) =
      stacked (join k f g) finished marks := by
  have hl : f.depth < (join k f g).depth := by rw [depth_join]; omega
  have hr : g.depth < (join k f g).depth := by rw [depth_join]; omega
  by_cases hjoin : (join k f g).depth ≤ maxDepth
  · have hf : stacked f finished marks = .ok ((f, f.depth) :: finished, marks) :=
      if_pos (by omega)
    have hg : stacked g ((f, f.depth) :: finished) (.waiting k :: marks) =
        .ok ((g, g.depth) :: (f, f.depth) :: finished, .waiting k :: marks) :=
      if_pos (by omega)
    rw [hf, Except.bind, hg, Except.bind, yieldTo, if_neg (Nat.lt_irrefl _), reduce_eq,
      if_pos hjoin, stacked, if_pos hjoin]
    exact yieldTo_of_below h _
  · rw [show stacked (join k f g) finished marks = .error (.tooDeep maxDepth) from if_neg hjoin]
    by_cases hf : f.depth ≤ maxDepth
    · rw [stacked, if_pos hf, Except.bind]
      by_cases hg : g.depth ≤ maxDepth
      · rw [stacked, if_pos hg, Except.bind, yieldTo, if_neg (Nat.lt_irrefl _), reduce_eq,
          if_neg hjoin]
      · rw [stacked, if_neg hg]
        rfl
    · rw [stacked, if_neg hf]
      rfl

/-! ## The invariant -/

/-- What the tokens of a phrase do to the stacks: they put its formula on top, once the connectives
of a chain are closed. -/
def Reads : Phrase → List Token → Formula → Prop
  | operand, ts, f =>
    ∀ finished marks, pushMany finished marks ts = stacked f finished marks
  | chain k, ts, f =>
    ∀ finished marks, Below k.precedence marks →
      (pushMany finished marks ts).bind (fun s => yieldTo k s.1 s.2) = stacked f finished marks

theorem except_bind_bind
    {ε α β γ : Type} (x : Except ε α) (f : α → Except ε β) (g : β → Except ε γ) :
    (x.bind f).bind g = x.bind fun a => (f a).bind g := by
  cases x <;> rfl

/-- One side of a connective, closed as that connective demands. -/
theorem Reads.side
    {k : Connective} {ts : List Token} {f : Formula} {marks : List Mark}
    (h : Reads (side k) ts f)
    (hmarks : Below (side k).strength marks)
    (finished : Finished) :
    (pushMany finished marks ts).bind (fun s => yieldTo k s.1 s.2) =
      (stacked f finished marks).bind fun s => yieldTo k s.1 s.2 := by
  cases k with
  | and => rw [show pushMany finished marks ts = stacked f finished marks from h finished marks]
  | or =>
      have hterm : (pushMany finished marks ts).bind (fun s => yieldTo .and s.1 s.2) =
          stacked f finished marks :=
        h finished marks hmarks
      rw [← hterm, except_bind_bind]
      -- `AND` waits less long than `OR`, so closing for it first is no difference
      simp only [yieldTo_yieldTo (j := .and) (k := .or) (by decide)]

theorem reads_condition
    {text : String} {c : Condition}
    (h : Condition.ofText text = .ok c) :
    Reads operand [.condition text] (leaf c) := by
  intro finished marks
  have hdepth : (leaf c).depth ≤ maxDepth := by
    rw [depth_leaf]
    decide
  rw [pushMany_single, push, h, stacked, if_pos hdepth, depth_leaf]

theorem reads_group
    {ts : List Token} {f : Formula}
    (h : Reads expression ts f) :
    Reads operand (.opening :: (ts ++ [.closing])) f := by
  intro finished marks
  have hinner := h finished (.opening :: marks) (below_opening _ _)
  calc pushMany finished marks (.opening :: (ts ++ [.closing]))
      = pushMany finished (.opening :: marks) (ts ++ [.closing]) := rfl
    _ = (pushMany finished (.opening :: marks) ts).bind fun s => closeGroup s.1 s.2 := by
        simp only [pushMany_append, pushMany_single, push_closing]
    _ = (stacked f finished (.opening :: marks)).bind fun s => closeGroup s.1 s.2 := by
        rw [← hinner, except_bind_bind]
        simp only [closeGroup_yieldTo]
    _ = stacked f finished marks := by
        unfold stacked
        split <;> rfl

theorem reads_single
    {k : Connective} {ts : List Token} {f : Formula}
    (h : Reads (side k) ts f) :
    Reads (chain k) ts f := by
  intro finished marks hmarks
  have hside : Below (side k).strength marks :=
    hmarks.mono (Nat.le_of_lt (precedence_lt_strength_side k))
  rw [h.side hside finished, stacked_bind_yieldTo hmarks]

theorem reads_more
    {k : Connective} {ts us : List Token} {f g : Formula}
    (hl : Reads (chain k) ts f)
    (hr : Reads (side k) us g) :
    Reads (chain k) (ts ++ .connective k :: us) (join k f g) := by
  intro finished marks hmarks
  have hopen (s : Finished × List Mark) : pushMany s.1 s.2 (.connective k :: us) =
      (yieldTo k s.1 s.2).bind fun t => pushMany t.1 (.waiting k :: t.2) us := by
    rw [pushMany, push_connective, except_bind_bind]
    rfl
  have hside (s : Finished × List Mark) :
      (pushMany s.1 (.waiting k :: s.2) us).bind (fun t => yieldTo k t.1 t.2) =
        (stacked g s.1 (.waiting k :: s.2)).bind fun t => yieldTo k t.1 t.2 :=
    hr.side (below_waiting (precedence_lt_strength_side k) _) _
  rw [pushMany_append]
  simp only [hopen]
  rw [← except_bind_bind, hl finished marks hmarks, except_bind_bind]
  simp only [hside]
  rw [← except_bind_bind, stacked_bind_join hmarks]

/-- What a phrase does to the stacks, by induction on the grammar. -/
theorem reads_of_spells
    {p : Phrase} {ts : List Token} {f : Formula}
    (h : Spells p ts f) :
    Reads p ts f := by
  induction h with
  | condition h => exact reads_condition h
  | group h ih => exact reads_group ih
  | single h ih => exact reads_single ih
  | more left right ihl ihr => exact reads_more ihl ihr

theorem pushAll_of_reads
    {ts : List Token} {f : Formula}
    (h : Reads expression ts f) :
    pushAll [] [] ts =
      if f.depth ≤ maxDepth then .ok [(f, f.depth)] else .error (.tooDeep maxDepth) := by
  have hread := h [] [] (below_nil _)
  calc pushAll [] [] ts
      = (pushMany [] [] ts).bind fun s => closeAll s.1 s.2 := pushAll_eq _ _ _
    _ = (stacked f [] []).bind fun s => closeAll s.1 s.2 := by
        rw [← hread, except_bind_bind]
        simp only [closeAll_yieldTo]
    _ = if f.depth ≤ maxDepth then .ok [(f, f.depth)] else .error (.tooDeep maxDepth) := by
        unfold stacked
        split <;> rfl

theorem ofTokens_of_reads
    {ts : List Token} {f : Formula}
    (hne : ts ≠ [])
    (h : Reads expression ts f) :
    ofTokens ts = if f.depth ≤ maxDepth then .ok f else .error (.tooDeep maxDepth) := by
  have hread := pushAll_of_reads h
  cases ts with
  | nil => exact absurd rfl hne
  | cons t ts =>
      rw [ofTokens, hread]
      · by_cases hf : f.depth ≤ maxDepth
        · rw [if_pos hf, if_pos hf]
        · rw [if_neg hf, if_neg hf]
      · simp

/-- An expression is read as its formula, or refused where that is too deep. -/
theorem ofTokens_of_spells
    {ts : List Token} {f : Formula}
    (h : Spells expression ts f) :
    ofTokens ts = if f.depth ≤ maxDepth then .ok f else .error (.tooDeep maxDepth) :=
  ofTokens_of_reads h.ne_nil (reads_of_spells h)

/-- **Reading an expression.**  It gives the formula of the grammar, within the depth limit, and
else refuses the rule. -/
theorem ofTokens_expression
    {ts : List Token} {f : Formula}
    (h : Spells expression ts f) :
    (f.depth ≤ maxDepth → ofTokens ts = .ok f) ∧
    (maxDepth < f.depth →
      ∃ fault, ofTokens ts = .error fault ∧ fault.kind = .invalidRule) := by
  rw [ofTokens_of_spells h]
  constructor
  · intro hdepth
    exact if_pos hdepth
  · intro hdepth
    exact ⟨.tooDeep maxDepth, if_neg (by omega), rfl⟩

/-- A group in parentheses on the left of `AND`, which itself stands on the right of `OR`. -/
theorem ofTokens_mixed :
    ofTokens
        [.condition "a > 1", .connective .or, .opening, .condition "AND = '('", .connective .or,
          .condition "b<-2.5", .closing, .connective .and, .condition "c = word"] =
      .ok (join .or (leaf ⟨"a", .above, .number ⟨0x3FF0000000000000⟩⟩)
        (join .and
          (join .or (leaf ⟨"AND", .equal, .text "("⟩)
            (leaf ⟨"b", .below, .number ⟨0xC004000000000000⟩⟩))
          (leaf ⟨"c", .equal, .text "word"⟩))) := by
  have ha : Condition.ofText "a > 1" = .ok ⟨"a", .above, .number ⟨0x3FF0000000000000⟩⟩ := by
    decide +kernel
  have hb : Condition.ofText "AND = '('" = .ok ⟨"AND", .equal, .text "("⟩ := by
    decide +kernel
  have hc : Condition.ofText "b<-2.5" = .ok ⟨"b", .below, .number ⟨0xC004000000000000⟩⟩ := by
    decide +kernel
  have hd : Condition.ofText "c = word" = .ok ⟨"c", .equal, .text "word"⟩ := by
    decide +kernel
  have hterm {ts : List Token} {f : Formula} (h : Spells operand ts f) : Spells term ts f :=
    .single h
  have hexpression {ts : List Token} {f : Formula} (h : Spells term ts f) :
      Spells expression ts f :=
    .single h
  have hinner := Spells.more (hexpression (hterm (.condition hb))) (hterm (.condition hc))
  have hlast := Spells.more (hterm (.group hinner)) (.condition hd)
  have hrule := Spells.more (hexpression (hterm (.condition ha))) hlast
  exact (ofTokens_expression hrule).1 (by simp [depth_join, depth_leaf, maxDepth])

end Formula
end Eligibility
