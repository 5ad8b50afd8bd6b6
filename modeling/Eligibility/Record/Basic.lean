import Eligibility.Keyed
import Eligibility.Number.Numeral
import Eligibility.Number.Layout

/-!
# Records

A record gives values to fields.  A value is kept as it was supplied, a number or a text; whether a
text counts as a number is decided when it is compared.
-/

namespace Eligibility

/-- The value of a field. -/
inductive FieldValue
  | number (value : Binary64)
  | text (value : String)
deriving DecidableEq, Inhabited, Repr

namespace FieldValue

/-- The value as a finite number, if it reads as one. -/
def number? : FieldValue → Option Binary64
  | number value => if value.isFinite then some value else none
  | text s => Numeral.finite? s

/-- The value as text. -/
def plainText : FieldValue → String
  | number value => value.shown
  | text s => s

end FieldValue

/-- Values of distinct fields. -/
abbrev Record := Keyed FieldValue

end Eligibility
