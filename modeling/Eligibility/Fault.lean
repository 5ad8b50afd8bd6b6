import Eligibility.Connective
import Eligibility.Number.Layout
import Eligibility.Text.Quoted

/-!
# What can go wrong

Every failure of the library is a `Fault`, one constructor for each cause.  A fault has a coarse
`Kind`, which is what callers branch on, and a message for people.
-/

namespace Eligibility

/-- The cause of a failure. -/
inductive Fault
  /-- A rule text or token list without any token. -/
  | noTokens
  /-- Several finished expressions with no connective to join them. -/
  | unjoined (count : Nat)
  /-- A connective without an expression on each side. -/
  | missingOperand (connective : Connective)
  /-- A formula deeper than the limit. -/
  | tooDeep (limit : Nat)
  /-- A conjunction of rules that would be deeper than the limit. -/
  | conjunctionTooDeep (count limit : Nat)
  /-- A document whose objects and arrays nest deeper than the limit. -/
  | nestedTooDeep (levels limit : Nat)
  /-- A stored leaf that carries children. -/
  | leafWithChildren
  /-- A stored leaf without its condition. -/
  | leafWithoutValue
  /-- A stored inner node without its connective. -/
  | nodeWithoutConnective
  /-- A stored inner node that lacks a child. -/
  | missingChild (connective : Connective)
  /-- A text that is no condition. -/
  | malformedCondition (text : String)
  /-- A field name that is not one word. -/
  | fieldNotWord (field : String)
  /-- A text literal that holds a single quote. -/
  | quoteInLiteral (text : String)
  /-- A number literal that is not finite. -/
  | numberNotFinite (number : Binary64)
  /-- A comparison operator other than the three known ones. -/
  | badComparator (symbol : String)
  /-- Stray text between the tokens of a rule. -/
  | strayText (text : String)
  /-- A rule of parentheses alone. -/
  | emptyExpression
  /-- Parentheses that do not match. -/
  | unbalanced
  /-- A condition on a field that the record lacks. -/
  | unknownField (field : String)
  /-- A conjunction of no rules. -/
  | emptyRuleSet
  /-- A document that does not have the expected form. -/
  | malformedDocument
  /-- A name of no evaluation strategy. -/
  | unknownStrategy (name : String)
  /-- A setting that does not exist. -/
  | unknownSetting (name : String) (known : List String)
  /-- A stored formula of the right form that is no formula, as the report on its document tells it.
  The position of the report, if it is `located`, is no part of the detail. -/
  | badStoredFormula (detail : String) (located : Bool)
deriving DecidableEq, Inhabited, Repr

namespace Fault

/-- The coarse classes of failure. -/
inductive Kind
  | invalidRule
  | unbalancedParens
  | unknownToken
  | emptyExpression
  | badConditionFormat
  | unknownField
  | badComparator
  | emptyRuleSet
  | deserialization
deriving DecidableEq, Inhabited, Repr

/-- The class of a fault. -/
def kind : Fault → Kind
  | noTokens | unjoined _ | missingOperand _ | tooDeep _ | conjunctionTooDeep _ _
  | nestedTooDeep _ _ | leafWithChildren | nodeWithoutConnective | missingChild _ => .invalidRule
  | leafWithoutValue | malformedCondition _ | fieldNotWord _ | quoteInLiteral _
  | numberNotFinite _ => .badConditionFormat
  | badComparator _ => .badComparator
  | strayText _ => .unknownToken
  | Fault.emptyExpression => .emptyExpression
  | unbalanced => .unbalancedParens
  | Fault.unknownField _ => .unknownField
  | Fault.emptyRuleSet => .emptyRuleSet
  | malformedDocument | unknownStrategy _ | unknownSetting _ _ | badStoredFormula _ _ =>
    .deserialization

/-- What the message of a fault starts with; the detail follows. -/
def Kind.heading : Kind → String
  | invalidRule => "Invalid rule: "
  | unbalancedParens => "Unbalanced parentheses"
  | unknownToken => "Unknown token: "
  | Kind.emptyExpression => "Empty expression"
  | badConditionFormat => "Invalid condition format: "
  | Kind.unknownField => "Field "
  | Kind.badComparator => "Invalid comparison operator: "
  | Kind.emptyRuleSet => "No rules to combine"
  | deserialization => "Deserialization error: "

/-- What the message of a fault says about its cause. -/
def detail : Fault → String
  | noTokens => "no valid tokens found"
  | unjoined count =>
    "could not fully parse, " ++ toString count ++ " expressions left without a connective"
  | missingOperand k => k.word ++ " is missing an operand"
  | tooDeep limit => "rule nests deeper than " ++ toString limit ++ " levels"
  | conjunctionTooDeep count limit =>
    "combining " ++ toString count ++ " rules nests deeper than " ++ toString limit ++ " levels"
  | nestedTooDeep levels limit =>
    "JSON nests " ++ toString levels ++ " levels deep, limit is " ++ toString limit
  | leafWithChildren => "operand node cannot have children"
  | leafWithoutValue => "operand node has no value"
  | nodeWithoutConnective => "operator node has no connective"
  | missingChild k => k.word ++ " node is missing a child"
  | malformedCondition text => text
  | fieldNotWord field => "field name must be a single word: " ++ Text.quoted field
  | quoteInLiteral text => "text literal cannot contain a single quote: " ++ Text.quoted text
  | numberNotFinite number => "number literal must be finite: " ++ number.shown
  | badComparator symbol => symbol
  | strayText text => text
  | Fault.emptyExpression => ""
  | unbalanced => ""
  | Fault.unknownField field => "\"" ++ field ++ "\" not found in record"
  | Fault.emptyRuleSet => ""
  | malformedDocument => "malformed document"
  | unknownStrategy name => "unknown evaluation strategy: " ++ name
  | unknownSetting name known =>
    "unknown config key `" ++ name ++ "`, expected one of " ++ ", ".intercalate known
  | badStoredFormula detail _ => detail

/-- The message for people. -/
def message (fault : Fault) : String :=
  fault.kind.heading ++ fault.detail

end Fault
end Eligibility
