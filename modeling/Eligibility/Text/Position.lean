/-!
# Positions at the end of a message

A message may end in a position, ` at line 3 column 14`, with both numbers in decimal digits.

**Passing on.**  When a report on one text takes over a message on another, the position at the end
of the message is taken off and counts as the position of the report.  It has to fit into 64 bits;
otherwise it stays a part of the message.  Lines are counted from one, so that line zero, although
it is taken off, leaves the report without a position.
-/

namespace Eligibility
namespace Text

/-- A position in a text. -/
structure Position where
  line : Nat
  column : Nat
deriving DecidableEq, Inhabited, Repr

namespace Position

/-- Whether both numbers fit into 64 bits. -/
def fits (p : Position) : Bool :=
  p.line < UInt64.size && p.column < UInt64.size

/-- Whether there is such a line. -/
def isPlace (p : Position) : Bool :=
  p.line != 0

end Position

/-- Removes a text from the end of another. -/
def dropEnd? (suffix cs : List Char) : Option (List Char) :=
  if suffix.isSuffixOf cs then some (cs.take (cs.length - suffix.length)) else none

/-- Splits the digits off the end of a text, as the number that they spell. -/
def splitNumber? (cs : List Char) : Option (List Char × Nat) :=
  let digits := (cs.reverse.takeWhile Char.isDigit).reverse
  if digits = [] then none
  else some ((cs.reverse.dropWhile Char.isDigit).reverse, Nat.ofDigitChars 10 digits 0)

/-- Splits the position off the end of a text. -/
def splitPosition? (cs : List Char) : Option (List Char × Position) :=
  (splitNumber? cs).bind fun (cs, column) =>
    (dropEnd? " column ".toList cs).bind fun cs =>
      (splitNumber? cs).bind fun (cs, line) =>
        (dropEnd? " at line ".toList cs).map fun cs => (cs, ⟨line, column⟩)

/-- The message without a position at its end. -/
def withoutPosition (message : String) : String :=
  match splitPosition? message.toList with
  | some (cs, _) => String.ofList cs
  | none => message

/-- The message as a report on another text passes it on, and whether the position of the report is
known from it. -/
def passOn (message : String) : String × Bool :=
  match splitPosition? message.toList with
  | some (cs, p) => if p.fits then (String.ofList cs, p.isPlace) else (message, false)
  | none => (message, false)

end Text
end Eligibility
