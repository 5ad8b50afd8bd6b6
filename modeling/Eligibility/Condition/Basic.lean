import Eligibility.Fault
import Eligibility.Number.Numeral
import Eligibility.Text.Word

/-!
# Conditions

A condition compares one field of a record with a literal.  Conditions can be put together freely;
`Condition.check` keeps those that a rule text can express, since the rule syntax has no escape
for a quote and no numeral for what is not finite.
-/

namespace Eligibility

/-- How a field is compared with a literal. -/
inductive Comparator
  | above
  | below
  | equal
deriving DecidableEq, Inhabited, Repr

namespace Comparator

/-- The sign for the comparator in rule texts. -/
def symbol : Comparator → String
  | above => ">"
  | below => "<"
  | equal => "="

/-- The comparator that a sign stands for. -/
def ofSymbol (s : String) : Except Fault Comparator :=
  if s = ">" then .ok above
  else if s = "<" then .ok below
  else if s = "=" then .ok equal
  else .error (.badComparator s)

/-- Whether the comparator holds of two things in a given order. -/
def holds : Comparator → Ordering → Bool
  | above, .gt => true
  | below, .lt => true
  | equal, .eq => true
  | _, _ => false

/-- Every comparator is read back from its own symbol. -/
theorem ofSymbol_symbol (c : Comparator) : ofSymbol c.symbol = .ok c := by
  cases c <;> rfl

end Comparator

/-- What a field is compared with. -/
inductive Literal
  | number (value : Binary64)
  | text (value : String)
deriving DecidableEq, Inhabited, Repr

namespace Literal

/-- The literal that an operand without quotes stands for: a number if it reads as a finite one. -/
def ofBare (s : String) : Literal :=
  match Numeral.finite? s with
  | some value => number value
  | none => text s

/-- The literal as a number, if it reads as one.  Digits between quotes count. -/
def number? : Literal → Option Binary64
  | number value => some value
  | text s => Numeral.finite? s

/-- The literal as text, without quotes. -/
def plainText : Literal → String
  | number value => value.shown
  | text s => s

/-- The literal as a rule text spells it. -/
def ruleText : Literal → List Char
  | number value => Layout.plain.text value
  | text s => '\'' :: (s.toList ++ ['\''])

/-- The literal as a rule text spells it. -/
def shown (l : Literal) : String :=
  String.ofList l.ruleText

end Literal

/-- A comparison of a field with a literal. -/
structure Condition where
  /-- The name of the field. -/
  field : String
  /-- How they are compared. -/
  comparator : Comparator
  /-- What the field is compared with. -/
  literal : Literal
deriving DecidableEq, Inhabited, Repr

namespace Condition

/-- The condition as a rule text spells it. -/
def ruleText (c : Condition) : List Char :=
  c.field.toList ++ ' ' :: (c.comparator.symbol.toList ++ ' ' :: c.literal.ruleText)

/-- The condition as a rule text spells it. -/
def shown (c : Condition) : String :=
  String.ofList c.ruleText

/-- Whether a text is one word. -/
def isOneWord (s : String) : Bool :=
  !s.isEmpty && s.toList.all Text.isWord

/-- Passes the conditions that a rule text can express. -/
def check (c : Condition) : Except Fault Condition :=
  if !isOneWord c.field then .error (.fieldNotWord c.field)
  else match c.literal with
    | .text s => if '\'' ∈ s.toList then .error (.quoteInLiteral s) else .ok c
    | .number x => if x.isFinite then .ok c else .error (.numberNotFinite x)

end Condition
end Eligibility
