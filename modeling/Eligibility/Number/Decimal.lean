import Eligibility.Number.Rounding

/-!
# Decimal numbers

A decimal is a whole number of digits times a power of ten.  It has a nearest rank, and every finite
rank has a shortest decimal that reads back as it.

**Algorithm.**  For one digit, then two, and so on up to seventeen, the two neighbours of the
value on the grid of decimals with that many digits are read back.  The first grid with a
neighbour that gives the value again wins; of two such neighbours the nearer is taken, and a `Tie`
rule decides when both are equally near.  Since each candidate is read back by the very reader
that the answer is meant for, the answer needs no separate error analysis.
-/

namespace Eligibility

/-- The number `digits * 10 ^ exponent`. -/
structure Decimal where
  /-- The digits, read as a whole number. -/
  digits : Nat
  /-- The power of ten. -/
  exponent : Int
deriving DecidableEq, Inhabited, Repr

/-- Which of two equally near decimals is chosen. -/
inductive Tie
  | up
  | toEven
deriving DecidableEq, Inhabited, Repr

namespace Decimal

/-- The rank nearest to the decimal.  Magnitudes from `10 ^ 400` on are infinite and those below
`2 ^ -1080` are zero, whatever their digits, so neither needs the power of ten. -/
def rank (d : Decimal) : Nat :=
  if d.digits = 0 then 0
  else if 400 ≤ d.exponent then Binary64.infinityRank
  else if (d.digits.log2 : Int) + 1 + 3 * d.exponent < -1080 then 0
  else if 0 ≤ d.exponent then Binary64.roundRatio (d.digits * Nat.pow 10 d.exponent.toNat) 1
  else Binary64.roundRatio d.digits (Nat.pow 10 (-d.exponent).toNat)

/-- The exponent of the first digit of a positive magnitude given in units of `2 ^ -1074`. -/
def leadingExponent (units : Nat) : Int :=
  let estimate : Int := (((units.log2 : Int) - 1074) * 30103).fdiv 100000
  let reached : Bool :=
    if 0 ≤ estimate + 1 then decide (Binary64.unitsPerOne * Nat.pow 10 (estimate + 1).toNat ≤ units)
    else decide (Binary64.unitsPerOne ≤ units * Nat.pow 10 (-(estimate + 1)).toNat)
  if reached then estimate + 1 else estimate

/-- The two neighbours of a quotient among the whole numbers, the preferred one first. -/
def neighbours (tie : Tie) (num den : Nat) : List Nat :=
  let low := num / den
  let rest := num % den
  if rest = 0 then [low]
  else if 2 * rest < den then [low, low + 1]
  else if den < 2 * rest then [low + 1, low]
  else match tie with
    | .up => [low + 1, low]
    | .toEven => if low % 2 = 0 then [low, low + 1] else [low + 1, low]

/-- The same number without zeros at the end of its digits. -/
def trimZeros (d : Decimal) : Decimal :=
  if d.digits ≠ 0 ∧ d.digits % 10 = 0 then trimZeros ⟨d.digits / 10, d.exponent + 1⟩ else d
termination_by d.digits
decreasing_by omega

/-- The neighbours of a magnitude among the multiples of a power of ten. -/
def candidates (tie : Tie) (units : Nat) (exponent : Int) : List Decimal :=
  let grid :=
    if 0 ≤ exponent then neighbours tie units (Binary64.unitsPerOne * Nat.pow 10 exponent.toNat)
    else neighbours tie (units * Nat.pow 10 (-exponent).toNat) Binary64.unitsPerOne
  grid.map fun digits => trimZeros ⟨digits, exponent⟩

/-- The magnitude with all its digits. -/
def exact (units : Nat) : Decimal :=
  trimZeros ⟨units * Nat.pow 5 1074, -1074⟩

/-- The decimal with the fewest digits that reads back as a finite rank, nearest to its value. -/
def shortest (tie : Tie) (rank : Nat) : Decimal :=
  let units := Binary64.units rank
  let first := leadingExponent units
  let tried := (List.range 17).findSome? fun (more : Nat) =>
    (candidates tie units (first - more)).find? fun d => d.rank == rank
  tried.getD (exact units)

end Decimal
end Eligibility
