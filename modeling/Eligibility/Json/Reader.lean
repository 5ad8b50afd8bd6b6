import Eligibility.Json.Value

/-!
# Reading documents and values into types

What the readers of particular types share: how many containers they may enter, names that stand for
one of several cases, and nulls.  Documents and values are asked the same questions, so a reader that
goes by the answers alone reads both.
-/

namespace Eligibility
namespace Json

/-- How many more containers a reader may enter inside one another; `none` sets no limit. -/
abbrev Allowance := Option Nat

/-- What is left of an allowance inside one more container, if it may be entered. -/
def enter? : Allowance → Option Allowance
  | none => some none
  | some 0 => none
  | some (n + 1) => some (some n)

/-- What a reader of names and texts is told about a document or a value. -/
structure Surface where
  /-- The name of a case: a text, or an object whose only member has that key and the value null. -/
  name? : Option String
  /-- The text, of a text. -/
  text? : Option String
  isNull : Bool
deriving DecidableEq, Inhabited, Repr

/-- What a reader makes of something that may be null instead. -/
def Surface.optional {α : Type} (x : Surface) (read : Unit → Option α) : Option (Option α) :=
  if x.isNull then some none else (read ()).map some

namespace Document

/-- The name of a case that a document spells. -/
def name? (allowance : Allowance) : Document → Option String
  | text content => content
  | object [(some key, null)] true => (enter? allowance).map fun _ => key
  | _ => none

/-- A text. -/
def text? : Document → Option String
  | text content => content
  | _ => none

/-- Whether the document is null. -/
def isNull : Document → Bool
  | null => true
  | _ => false

/-- What a reader is told about a document, within an allowance. -/
def surface (allowance : Allowance) (d : Document) : Surface :=
  ⟨d.name? allowance, d.text?, d.isNull⟩

end Document

namespace Value

/-- The name of a case that a value spells. -/
def name? : Value → Option String
  | text s => some s
  | object [(key, null)] => some key
  | _ => none

/-- A text. -/
def text? : Value → Option String
  | text s => some s
  | _ => none

/-- Whether the value is null. -/
def isNull : Value → Bool
  | null => true
  | _ => false

/-- What a reader is told about a value. -/
def surface (v : Value) : Surface :=
  ⟨v.name?, v.text?, v.isNull⟩

end Value
end Json
end Eligibility
