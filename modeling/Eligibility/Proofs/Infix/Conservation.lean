import Eligibility.Proofs.Infix.Placement

/-!
# Nothing is lost on the stacks

While a rule is read, what has been read is spread over the two stacks.  Its conditions lie in the
finished formulas, in the order of the rule.  Its connectives are the joins of the finished formulas
and those that still wait among the marks.  Joining moves one connective from the marks into a
formula, and no token takes anything away, whether it stands well or not.

**Results.**
* `length_conditions`: a formula has one condition more than connectives;
* `Holds.joins`, `Holds.push`, `Holds.pushAll`: joining, one token and a whole run keep all that has
  been read;
* `conditions_of_ofTokens`: the conditions and the connectives of a rule that is read.
-/

namespace Eligibility

theorem Connective.length_eq_count_add_count (ks : List Connective) :
    ks.length = ks.count .and + ks.count .or := by
  induction ks with
  | nil => rfl
  | cons k ks ih =>
      cases k <;> simp [ih] <;> omega

namespace Token

/-- The text of a condition. -/
def text? : Token → Option String
  | condition text => some text
  | _ => none

/-- The connective that the token is. -/
def connective? : Token → Option Connective
  | connective k => some k
  | _ => none

theorem count_connective
    (k : Connective) (ts : List Token) :
    (ts.filterMap connective?).count k = ts.count (.connective k) := by
  induction ts with
  | nil => rfl
  | cons token ts ih =>
      cases token <;> simp [List.filterMap_cons, connective?, List.count_cons, ih]

end Token

namespace Formula

/-- The connectives from left to right. -/
def connectives : Formula → List Connective
  | leaf _ => []
  | join k left right => left.connectives ++ k :: right.connectives

/-- A formula has one condition more than connectives. -/
theorem length_conditions (f : Formula) :
    f.conditions.length = f.connectives.length + 1 := by
  induction f with
  | leaf c =>
      rw [conditions_leaf]
      rfl
  | join k left right ihl ihr =>
      rw [conditions_join, connectives, List.length_append, List.length_append, List.length_cons,
        ihl, ihr]
      omega

/-! ## The stacks -/

/-- The connective that a mark waits to join by. -/
def Mark.connective? : Mark → Option Connective
  | .opening => none
  | .waiting k => some k

/-- The conditions of finished formulas in the order of the rule. -/
def conditionsOf (finished : Finished) : List Condition :=
  finished.reverse.flatMap fun e => e.1.conditions

/-- The connectives of finished formulas and those that still wait. -/
def connectivesOf (finished : Finished) (marks : List Mark) : List Connective :=
  (finished.flatMap fun e => e.1.connectives) ++ marks.filterMap Mark.connective?

/-- The stacks hold the conditions of what has been read, in order, and its connectives. -/
structure Holds (read : List Token) (finished : Finished) (marks : List Mark) : Prop where
  conditions : (read.filterMap Token.text?).map Condition.ofText = (conditionsOf finished).map .ok
  connectives : (read.filterMap Token.connective?).Perm (connectivesOf finished marks)

theorem holds_nil : Holds [] [] [] where
  conditions := rfl
  connectives := .refl _

variable {read : List Token} {finished finished' : Finished} {marks marks' : List Mark}

/-- Joining takes the two formulas on top and puts their join there. -/
theorem exists_of_reduce
    {k : Connective}
    (h : reduce k finished = .ok finished') :
    ∃ f g below d d' d'',
      finished = (g, d) :: (f, d') :: below ∧ finished' = (join k f g, d'') :: below := by
  match finished with
  | [] => simp [reduce] at h
  | [_] => simp [reduce] at h
  | (g, d) :: (f, d') :: below =>
      simp only [reduce] at h
      split at h
      · simp at h
      · rw [Except.ok.injEq] at h
        exact ⟨f, g, below, d, d', _, rfl, h.symm⟩

theorem conditionsOf_reduce
    {k : Connective}
    (h : reduce k finished = .ok finished') :
    conditionsOf finished' = conditionsOf finished := by
  obtain ⟨f, g, below, d, d', d'', rfl, rfl⟩ := exists_of_reduce h
  simp [conditionsOf, conditions_join]

/-- A connective that waits moves into the join. -/
theorem connectivesOf_reduce
    {k : Connective}
    (h : reduce k finished = .ok finished')
    (marks : List Mark) :
    (connectivesOf finished' marks).Perm (connectivesOf finished (.waiting k :: marks)) := by
  obtain ⟨f, g, below, d, d', d'', rfl, rfl⟩ := exists_of_reduce h
  refine List.perm_iff_count.mpr fun j => ?_
  simp only [connectivesOf, connectives, Mark.connective?, List.flatMap_cons, List.filterMap_cons,
    List.count_append, List.count_cons]
  omega

/-! ## Tokens -/

/-- Joining moves a connective from the marks into a formula and loses nothing. -/
theorem Holds.joins
    {p : Connective → Prop}
    (h : Holds read finished marks)
    (hjoins : Joins p finished marks finished' marks') :
    Holds read finished' marks' := by
  induction hjoins with
  | stop => exact h
  | join hk hreduce more ih =>
      refine ih ⟨?_, h.connectives.trans (connectivesOf_reduce hreduce _).symm⟩
      rw [conditionsOf_reduce hreduce]
      exact h.conditions

/-- One token adds itself to what the stacks hold. -/
theorem Holds.push
    {token : Token}
    (h : Holds read finished marks)
    (hpush : Pushes finished marks token finished' marks') :
    Holds (read ++ [token]) finished' marks' := by
  cases hpush with
  | condition htext =>
      refine ⟨?_, ?_⟩
      · simp [Token.text?, htext, h.conditions, conditionsOf, conditions_leaf]
      · simpa [List.filterMap_cons, Token.connective?, connectivesOf, Formula.connectives]
          using h.connectives
  | opening =>
      refine ⟨?_, ?_⟩
      · simpa [List.filterMap_cons, Token.text?] using h.conditions
      · simpa [List.filterMap_cons, Token.connective?, connectivesOf, Mark.connective?]
          using h.connectives
  | closing hjoins =>
      have hgroup := h.joins hjoins
      refine ⟨?_, ?_⟩
      · simpa [List.filterMap_cons, Token.text?] using hgroup.conditions
      · simpa [List.filterMap_cons, Token.connective?, connectivesOf, Mark.connective?]
          using hgroup.connectives
  | @connective k _ _ _ outer hjoins hbelow =>
      have hyield := h.joins hjoins
      have hwaits : (connectivesOf finished' outer ++ [k]).Perm
          (connectivesOf finished' (.waiting k :: outer)) := by
        simp only [connectivesOf, Mark.connective?, List.filterMap_cons, List.append_assoc]
        exact (List.perm_append_singleton k _).append_left _
      refine ⟨?_, ?_⟩
      · simpa [List.filterMap_cons, Token.text?] using hyield.conditions
      · rw [List.filterMap_append]
        exact (hyield.connectives.append_right [k]).trans hwaits

/-- What has been read and what a run goes on to read is held by the formulas at its end. -/
theorem Holds.pushAll
    {ts : List Token}
    (h : Holds read finished marks)
    (hpush : Formula.pushAll finished marks ts = .ok finished') :
    Holds (read ++ ts) finished' [] := by
  induction ts generalizing read finished marks with
  | nil =>
      rw [List.append_nil]
      exact h.joins (closeAll_eq_ok_iff.mp hpush)
  | cons token ts ih =>
      obtain ⟨between, marks', hstep, hrest⟩ := pushAll_cons_eq_ok_iff.mp hpush
      have hall := ih (h.push hstep) hrest
      rwa [List.append_assoc, List.singleton_append] at hall

/-- **Conservation.**  If tokens are read as a formula, wherever they stand, its conditions are those
of the tokens, each read by itself and in the same order, and it has as many joins by a connective as
there are tokens of that connective.  So the tokens hold one condition more than connectives. -/
theorem conditions_of_ofTokens
    {ts : List Token} {f : Formula}
    (h : ofTokens ts = .ok f) :
    (ts.filterMap Token.text?).map Condition.ofText = f.conditions.map .ok ∧
    (∀ k, f.connectives.count k = ts.count (.connective k)) ∧
    (ts.filterMap Token.text?).length =
      ts.count (.connective .and) + ts.count (.connective .or) + 1 := by
  obtain ⟨d, hpush⟩ := pushAll_of_ofTokens h
  obtain ⟨hconditions, hconnectives⟩ := holds_nil.pushAll hpush
  have hread : (ts.filterMap Token.text?).map Condition.ofText = f.conditions.map .ok := by
    simpa [conditionsOf] using hconditions
  have hperm : (ts.filterMap Token.connective?).Perm f.connectives := by
    simpa [connectivesOf] using hconnectives
  have hcount (k : Connective) : f.connectives.count k = ts.count (.connective k) := by
    rw [← hperm.count_eq, Token.count_connective]
  refine ⟨hread, hcount, ?_⟩
  have hlength := congrArg List.length hread
  rw [List.length_map, List.length_map, length_conditions, Connective.length_eq_count_add_count,
    hcount, hcount] at hlength
  exact hlength

/-- One connective of this sequence stands behind its operands, and one behind empty parentheses. -/
theorem conditions_of_ofTokens_misplaced :
    ∃ ts f, ts = [.condition "a = 'x'", .condition "b<y", .condition "a = 'x'", .connective .or,
        .opening, .closing, .connective .and] ∧
      f = join .or (leaf ⟨"a", .equal, .text "x"⟩)
        (join .and (leaf ⟨"b", .below, .text "y"⟩) (leaf ⟨"a", .equal, .text "x"⟩)) ∧
      ofTokens ts = .ok f ∧
      (ts.filterMap Token.text?).map Condition.ofText = f.conditions.map .ok ∧
      f.connectives.count .and = 1 ∧
      (ts.filterMap Token.text?).length = 1 + 1 + 1 := by
  have hread : ofTokens [.condition "a = 'x'", .condition "b<y", .condition "a = 'x'",
      .connective .or, .opening, .closing, .connective .and] =
      .ok (join .or (leaf ⟨"a", .equal, .text "x"⟩)
        (join .and (leaf ⟨"b", .below, .text "y"⟩) (leaf ⟨"a", .equal, .text "x"⟩))) := by
    decide +kernel
  obtain ⟨hconditions, hcount, hlength⟩ := conditions_of_ofTokens hread
  exact ⟨_, _, rfl, rfl, hread, hconditions, hcount .and, hlength⟩

end Formula
end Eligibility
