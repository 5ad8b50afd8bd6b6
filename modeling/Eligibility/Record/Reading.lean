import Eligibility.Fault
import Eligibility.Json.Reader
import Eligibility.Json.Value
import Eligibility.Record.Basic

/-!
# Records in documents

A record is read from an object.  Every member must be a number that is not too large, or a text; of
several members with the same key the last one stays.
-/

namespace Eligibility
namespace FieldValue

/-- Numbers in documents: a half goes to the even digit, whole numbers are marked by `.0`, and an
exponent is written before the fifth place after the point and from the seventeenth place before
it. -/
def layout : Layout where
  tie := .toEven
  wholeMark := ['.', '0']
  positional := fun exponent => decide (-5 ≤ exponent) && decide (exponent ≤ 15)
  infinity := fun _ => ['n', 'u', 'l', 'l']
  nan := ['n', 'u', 'l', 'l']

/-- The text that a value is stored as. -/
def toJson : FieldValue → String
  | number value => String.ofList (layout.text value)
  | text s => String.ofList (Json.Value.quote s)

/-- The value of a field in a document. -/
def read? : Json.Document → Option FieldValue
  | .number n => n.value?.map number
  | .text content => content.map text
  | _ => none

end FieldValue

namespace Record

/-- Inserts the members of an object, if each of them has a key and a value. -/
def readMembers? (r : Record) : List (Option String × Json.Document) → Option Record
  | [] => some r
  | (key, d) :: members =>
    match key, FieldValue.read? d with
    | some key, some value => readMembers? (r.insert key value) members
    | _, _ => none

/-- The record that is stored in a text. -/
def ofJson (s : String) : Except Fault Record :=
  match Json.Document.ofText s with
  | (.object members true, []) =>
    match readMembers? Keyed.empty members with
    | some r => .ok r
    | none => .error .malformedDocument
  | _ => .error .malformedDocument

end Record
end Eligibility
