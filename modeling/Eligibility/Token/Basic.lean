import Eligibility.Connective

/-!
# Tokens of a rule

A rule text is a sequence of tokens: conditions, kept as they are spelled, connectives and
parentheses.  What belongs to no token is loose.
-/

namespace Eligibility

/-- A token of a rule. -/
inductive Token
  /-- A condition as the rule spells it. -/
  | condition (text : String)
  | connective (connective : Connective)
  | opening
  | closing
deriving DecidableEq, Inhabited, Repr

/-- A token, or a character that belongs to none. -/
inductive Fragment
  | token (token : Token)
  | loose (char : Char)
deriving DecidableEq, Inhabited, Repr

namespace Token

/-- The token as a rule spells it. -/
def ruleText : Token → List Char
  | condition text => text.toList
  | connective k => k.word.toList
  | opening => ['(']
  | closing => [')']

end Token

namespace Fragment

/-- The text that the fragment was cut from. -/
def ruleText : Fragment → List Char
  | token t => t.ruleText
  | loose c => [c]

/-- The token, if the fragment is one. -/
def token? : Fragment → Option Token
  | token t => some t
  | loose _ => none

/-- Loose characters are written as they are. -/
theorem flatMap_ruleText_loose (cs : List Char) : (cs.map loose).flatMap ruleText = cs := by
  induction cs with
  | nil => rfl
  | cons c cs ih => rw [List.map_cons, List.flatMap_cons, ih, ruleText, List.singleton_append]

theorem filterMap_token?_loose (cs : List Char) : (cs.map loose).filterMap token? = [] := by
  simp [List.filterMap_map, Function.comp_def, token?]

end Fragment
end Eligibility
