import Eligibility.Number.Decimal
import Eligibility.Text.Blank

/-!
# Reading a number from free text

A numeral is an optional sign, digits with an optional point and at least one digit beside it, and
an optional exponent with an optional sign.  White space around it is ignored.  The value is the
nearest number; a numeral whose value is not finite counts as no number at all.
-/

namespace Eligibility
namespace Numeral

open Text

/-- An optional sign before a text: whether it is negative, and what follows. -/
def takeSign : List Char → Bool × List Char
  | '-' :: rest => (true, rest)
  | '+' :: rest => (false, rest)
  | rest => (false, rest)

/-- Splitting off a sign leaves no more characters than there were. -/
theorem length_takeSign_le (cs : List Char) : (takeSign cs).2.length ≤ cs.length := by
  unfold takeSign
  split <;> simp

/-- The exponent at the end of a numeral: nothing, or a mark, an optional sign and digits. -/
def exponent? : List Char → Option Int
  | [] => some 0
  | mark :: rest =>
    if mark = 'e' ∨ mark = 'E' then
      let signed := takeSign rest
      if signed.2 ≠ [] ∧ signed.2.all Char.isDigit then
        let size : Int := Nat.ofDigitChars 10 signed.2 0
        some (if signed.1 then -size else size)
      else none
    else none

/-- The digits after the point of a numeral and what follows them; without a point there are none.
-/
def takeFraction : List Char → List Char × List Char
  | '.' :: rest => (rest.takeWhile Char.isDigit, rest.dropWhile Char.isDigit)
  | rest => ([], rest)

/-- The decimal that a text without sign spells. -/
def decimal? (cs : List Char) : Option Decimal :=
  let whole := cs.takeWhile Char.isDigit
  let fraction := takeFraction (cs.dropWhile Char.isDigit)
  if whole = [] ∧ fraction.1 = [] then none
  else (exponent? fraction.2).map fun e =>
    ⟨Nat.ofDigitChars 10 (whole ++ fraction.1) 0, e - fraction.1.length⟩

/-- The number nearest to what a text spells, rounded to infinity where it is too large. -/
def number? (cs : List Char) : Option Binary64 :=
  let signed := takeSign cs
  (decimal? signed.2).map fun d => Binary64.ofRank signed.1 d.rank

/-- The finite number that a text spells, white space around it ignored. -/
def finite? (s : String) : Option Binary64 :=
  (number? (trim s.toList)).filter Binary64.isFinite

end Numeral
end Eligibility
