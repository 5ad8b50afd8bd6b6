import Eligibility.Condition.Basic

/-!
# Reading a condition

A condition is a word, a comparison operator and an operand, with white space allowed around each.
The operand is a text between single quotes, or a run of characters that are neither white space nor
quotes.

**The operator is the longest run of comparison signs** that leaves an operand.  When nothing but
white space follows the run, its last sign becomes the operand, provided one is left for the
operator.  Only a run that is one of the three known comparators is accepted.
-/

namespace Eligibility
namespace Condition

open Text

/-- Whether the character can stand in a comparison operator. -/
def isSign (c : Char) : Bool :=
  c = '<' || c = '>' || c = '=' || c = '!'

/-- The literal of an operand that reaches to the end of the text. -/
def operand? : List Char → Option Literal
  | [] => none
  | '\'' :: rest =>
    match rest.dropWhile (· ≠ '\'') with
    | _ :: after =>
      if after.all isBlank then some (.text (String.ofList (rest.takeWhile (· ≠ '\'')))) else none
    | [] => none
  | cs =>
    let isBare := fun c => !isBlank c && c ≠ '\''
    if (cs.dropWhile isBare).all isBlank then
      some (Literal.ofBare (String.ofList (cs.takeWhile isBare)))
    else none

/-- The operator and the operand of a condition, given the run of signs and what follows it. -/
def splitSigns? (signs after : List Char) : Option (List Char × Literal) :=
  if signs = [] then none
  else match trimStart after with
    | [] =>
      match signs.reverse with
      | last :: first :: more =>
        some ((first :: more).reverse, Literal.ofBare (String.ofList [last]))
      | _ => none
    | operand => (operand? operand).map fun literal => (signs, literal)

/-- The condition that a text spells. -/
def ofText (s : String) : Except Fault Condition :=
  let start := trimStart s.toList
  let field := start.takeWhile isWord
  let afterField := trimStart (start.dropWhile isWord)
  match splitSigns? (afterField.takeWhile isSign) (afterField.dropWhile isSign) with
  | some (signs, literal) =>
    if field = [] then .error (.malformedCondition s)
    else match Comparator.ofSymbol (String.ofList signs) with
      | .ok comparator => .ok ⟨String.ofList field, comparator, literal⟩
      | .error fault => .error fault
  | none => .error (.malformedCondition s)

end Condition
end Eligibility
