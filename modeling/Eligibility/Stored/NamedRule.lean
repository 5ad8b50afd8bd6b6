import Eligibility.Stored.Reading

/-!
# Named rules

A formula is kept under a name.  A stored rule nests one level more than its formula.  It is read
from an object, or from a list of name and formula; a formula is put together as soon as its own
document ends, so its faults come before those of what follows it.

`NamedRule.ofJson` measures the nesting of a text first and then reads without a limit;
`NamedRule.ofJsonWithin` reads with a limit on the containers that are entered.
-/

namespace Eligibility

/-- A formula with a name. -/
structure NamedRule where
  name : String
  formula : Formula
deriving DecidableEq, Inhabited, Repr

namespace NamedRule

open Json Stored

/-- The value that a rule is stored as. -/
def toValue (r : NamedRule) : Value :=
  .object [("name", .text r.name), ("ast", r.formula.toValue)]

/-- The text that a rule is stored as. -/
def toJson (r : NamedRule) : String :=
  r.toValue.write

/-- The rule, once name and formula are known. -/
def ofParts (name : Option String) (formula : Option Formula) : Except Fault NamedRule :=
  match name, formula with
  | some name, some formula => .ok ⟨name, formula⟩
  | _, _ => .error .malformedDocument

/-- Reads the further members of an object, given the name and the formula read so far. -/
def readMembers (allowance : Allowance) (closed : Bool) (name : Option String)
    (formula : Option Formula) : List (Option String × Document) → Except Fault NamedRule
  | [] => if closed then ofParts name formula else .error .malformedDocument
  | (key, d) :: members =>
    if key = some "name" then
      match name, d.text? with
      | none, some text => readMembers allowance closed (some text) formula members
      | _, _ => .error .malformedDocument
    else if key = some "ast" then
      if formula.isSome then .error .malformedDocument
      else match readFormula true allowance d with
        | .ok f => readMembers allowance closed name (some f) members
        | .error fault => .error fault
    else if key.isSome then readMembers allowance closed name formula members
    else .error .malformedDocument

/-- Reads the elements of a list. -/
def readItems (allowance : Allowance) (closed : Bool) :
    List Document → Except Fault NamedRule
  | first :: second :: more =>
    match first.text? with
    | none => .error .malformedDocument
    | some name =>
      match readFormula true allowance second with
      | .error fault => .error fault
      | .ok f => if closed && more.isEmpty then .ok ⟨name, f⟩ else .error .malformedDocument
  | _ => .error .malformedDocument

/-- The rule that a document spells. -/
def read (allowance : Allowance) : Document → Except Fault NamedRule
  | .object members closed =>
    match enter? allowance with
    | some inside => readMembers inside closed none none members
    | none => .error .malformedDocument
  | .list items closed =>
    match enter? allowance with
    | some inside => readItems inside closed items
    | none => .error .malformedDocument
  | _ => .error .malformedDocument

/-- The rule that is stored in a text, read within an allowance. -/
def ofJsonWithin (allowance : Allowance) (s : String) : Except Fault NamedRule :=
  match Document.ofText s with
  | (d, rest) =>
    match read allowance d with
    | .error fault => .error fault
    | .ok r => if rest.isEmpty then .ok r else .error .malformedDocument

/-- The rule that is stored in a text. -/
def ofJson (s : String) : Except Fault NamedRule :=
  match checkNesting (textNesting s) (Formula.maxDepth + 1) with
  | .error fault => .error fault
  | .ok () => ofJsonWithin none s

end NamedRule
end Eligibility
