import Eligibility.Number.Decimal

/-!
# The text of a number

A number is written with its shortest digits.  What the digits leave open is collected in one
`Layout`: which exponents are written out, what marks a whole number, and the words for what is not
finite.  `Layout.plain` is the layout of rule texts and messages; it never writes an exponent, so a
rule text shows each number in digits alone.
-/

namespace Eligibility

/-- The choices that the shortest digits of a number leave open. -/
structure Layout where
  /-- Which of two equally near shortest decimals is written. -/
  tie : Tie
  /-- What follows the digits of a whole number. -/
  wholeMark : List Char
  /-- Whether a number whose first digit has this exponent is written without exponent. -/
  positional : Int → Bool
  /-- The text of an infinity, given whether it is negative. -/
  infinity : Bool → List Char
  /-- The text of what is not a number. -/
  nan : List Char

namespace Layout

/-- Rule texts and messages: digits alone, a half goes up, whole numbers carry no mark. -/
def plain : Layout where
  tie := .up
  wholeMark := []
  positional := fun _ => true
  infinity := fun negative => if negative then ['-', 'i', 'n', 'f'] else ['i', 'n', 'f']
  nan := ['N', 'a', 'N']

/-- Decimal digits of a whole number. -/
def digitText (n : Nat) : List Char :=
  Nat.toDigits 10 n

/-- The exponent of the first digit. -/
def firstExponent (d : Decimal) : Int :=
  d.exponent + (digitText d.digits).length - 1

/-- The digits around a point, padded with zeros where the point lies outside them. -/
def positionalText (layout : Layout) (d : Decimal) : List Char :=
  let digits := digitText d.digits
  if 0 ≤ d.exponent then
    digits ++ List.replicate d.exponent.toNat '0' ++ layout.wholeMark
  else
    let places := (-d.exponent).toNat
    if places < digits.length then
      digits.take (digits.length - places) ++ '.' :: digits.drop (digits.length - places)
    else '0' :: '.' :: (List.replicate (places - digits.length) '0' ++ digits)

/-- One digit before the point, the others after it, and a signed exponent. -/
def scientificText (d : Decimal) : List Char :=
  let exponent := firstExponent d
  let sign := if exponent < 0 then '-' else '+'
  let tail := 'e' :: sign :: digitText exponent.natAbs
  match digitText d.digits with
  | [] => tail
  | [digit] => digit :: tail
  | digit :: more => digit :: '.' :: (more ++ tail)

/-- The text of a finite magnitude. -/
def magnitudeText (layout : Layout) (rank : Nat) : List Char :=
  if rank = 0 then '0' :: layout.wholeMark
  else
    let d := Decimal.shortest layout.tie rank
    if layout.positional (firstExponent d) then layout.positionalText d else scientificText d

/-- The text of a number. -/
def text (layout : Layout) (x : Binary64) : List Char :=
  if x.isNaN then layout.nan
  else if x.isFinite then
    (if x.negative then ['-'] else []) ++ layout.magnitudeText x.rank
  else layout.infinity x.negative

end Layout

namespace Binary64

/-- The number as rule texts and messages show it. -/
def shown (x : Binary64) : String :=
  String.ofList (Layout.plain.text x)

end Binary64
end Eligibility
