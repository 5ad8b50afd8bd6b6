import Eligibility.Condition.Reading
import Eligibility.Formula.Basic
import Eligibility.Token.Scan

/-!
# Formulas from rules

A rule is read in infix order with two stacks: finished formulas, each with its depth, and *marks*,
the connectives and opening parentheses that still wait for what follows them.  A connective first
closes all connectives above it that bind at least as tightly, so `AND` binds tighter than `OR` and
both lean left.
-/

namespace Eligibility
namespace Formula

/-- What waits for the rest of a rule. -/
inductive Mark
  | opening
  | waiting (connective : Connective)
deriving DecidableEq, Inhabited, Repr

/-- Finished formulas with their depths, the latest first. -/
abbrev Finished := List (Formula × Nat)

/-- Joins the two latest formulas. -/
def reduce (k : Connective) : Finished → Except Fault Finished
  | (right, rightDepth) :: (left, leftDepth) :: finished =>
    let depth := 1 + max leftDepth rightDepth
    if maxDepth < depth then .error (.tooDeep maxDepth)
    else .ok ((join k left right, depth) :: finished)
  | _ => .error (.missingOperand k)

/-- Joins up to the latest opening parenthesis and removes it. -/
def closeGroup : Finished → List Mark → Except Fault (Finished × List Mark)
  | _, [] => .error .unbalanced
  | finished, .opening :: marks => .ok (finished, marks)
  | finished, .waiting k :: marks =>
    match reduce k finished with
    | .ok finished => closeGroup finished marks
    | .error fault => .error fault

/-- Joins what binds at least as tightly as an incoming connective. -/
def yieldTo (incoming : Connective) : Finished → List Mark → Except Fault (Finished × List Mark)
  | finished, .waiting k :: marks =>
    if k.precedence < incoming.precedence then .ok (finished, .waiting k :: marks)
    else match reduce k finished with
      | .ok finished => yieldTo incoming finished marks
      | .error fault => .error fault
  | finished, marks => .ok (finished, marks)

/-- Joins everything that waits at the end of a rule. -/
def closeAll : Finished → List Mark → Except Fault Finished
  | finished, [] => .ok finished
  | _, .opening :: _ => .error .unbalanced
  | finished, .waiting k :: marks =>
    match reduce k finished with
    | .ok finished => closeAll finished marks
    | .error fault => .error fault

/-- Takes one token into account. -/
def push (finished : Finished) (marks : List Mark) :
    Token → Except Fault (Finished × List Mark)
  | .condition text =>
    match Condition.ofText text with
    | .ok c => .ok ((leaf c, 1) :: finished, marks)
    | .error fault => .error fault
  | .opening => .ok (finished, .opening :: marks)
  | .closing => closeGroup finished marks
  | .connective k =>
    match yieldTo k finished marks with
    | .ok (finished, marks) => .ok (finished, .waiting k :: marks)
    | .error fault => .error fault

/-- Takes the rest of a rule into account. -/
def pushAll : Finished → List Mark → List Token → Except Fault Finished
  | finished, marks, [] => closeAll finished marks
  | finished, marks, token :: tokens =>
    match push finished marks token with
    | .ok (finished, marks) => pushAll finished marks tokens
    | .error fault => .error fault

/-- The formula that a list of tokens spells. -/
def ofTokens (tokens : List Token) : Except Fault Formula :=
  match tokens with
  | [] => .error .noTokens
  | tokens =>
    match pushAll [] [] tokens with
    | .error fault => .error fault
    | .ok [] => .error .emptyExpression
    | .ok [(f, _)] => .ok f
    | .ok finished => .error (.unjoined finished.length)

/-- The formula that a rule text spells. -/
def ofText (strict : Bool) (s : String) : Except Fault Formula :=
  match Token.ofText strict s with
  | .ok tokens => ofTokens tokens
  | .error fault => .error fault

/-- A text is read exactly when it scans to tokens and the tokens are read. -/
theorem ofText_eq_ok_iff {strict : Bool} {s : String} {f : Formula} :
    ofText strict s = .ok f ↔ ∃ ts, Token.ofText strict s = .ok ts ∧ ofTokens ts = .ok f := by
  unfold ofText
  cases Token.ofText strict s <;> simp

end Formula
end Eligibility
