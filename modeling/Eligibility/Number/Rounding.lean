import Eligibility.Number.Binary64

/-!
# Rounding to the nearest number

Every finite magnitude is a whole multiple of `2 ^ -1074`, the least positive one.  Counted in that
unit the magnitudes are the whole numbers `units 0 < units 1 < …`, and rounding a quotient means
finding the rank whose units are nearest to it, the even rank of two equally near.

With `shift` bits dropped from the significand, the rounded significand `m` of the quotient has rank
`shift * binade + m`.  That holds for subnormal numbers, for normal ones, and when rounding carries
the significand to the next power of two.
-/

namespace Eligibility
namespace Binary64

/-- The whole number nearest to a quotient, the even one of two equally near. -/
def divHalfEven (num den : Nat) : Nat :=
  if 2 * (num % den) < den then num / den
  else if den < 2 * (num % den) then num / den + 1
  else num / den + num / den % 2

/-- The number of units in one, `2 ^ 1074`. -/
def unitsPerOne : Nat :=
  Nat.pow 2 1074

/-- The magnitude of a finite rank, counted in units of `2 ^ -1074`. -/
def units (rank : Nat) : Nat :=
  if rank < binade then rank
  else (binade + rank % binade) * Nat.pow 2 (rank / binade - 1)

/-- The rank nearest to a quotient that is counted in units of `2 ^ -1074`. -/
def roundUnits (num den : Nat) : Nat :=
  let shift := (num / den).log2 - 52
  min infinityRank (shift * binade + divHalfEven num (den * Nat.pow 2 shift))

/-- The rank nearest to a quotient. -/
def roundRatio (num den : Nat) : Nat :=
  roundUnits (num * unitsPerOne) den

/-- The rank nearest to the product of two finite magnitudes. -/
def mulRank (a b : Nat) : Nat :=
  roundUnits (units a * units b) unitsPerOne

/-- The rank nearest to the quotient of two finite magnitudes. -/
def divRank (a b : Nat) : Nat :=
  roundRatio (units a) (units b)

/-- The number nearest to a whole number. -/
def ofInt (n : Int) : Binary64 :=
  ofRank (decide (n < 0)) (roundRatio n.natAbs 1)

end Binary64
end Eligibility
