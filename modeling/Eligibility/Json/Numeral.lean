import Eligibility.Number.Numeral

/-!
# Numbers in documents

A number in a document is an optional minus sign, a whole part without superfluous leading zeros, an
optional fraction and an optional exponent.

**Value.**  The digits are gathered into a significand of at most 64 bits, which is rounded once and
then scaled by a power of ten with one multiplication or division.  Digits of the whole part that no
longer fit count as powers of ten, those of the fraction are dropped.  The result can therefore
differ from the nearest number in the last bit.

**Results.**
* `length_lt_of_from?`: splitting a numeral off a text uses up some of it.
-/

namespace Eligibility
namespace Json

/-- A number as a document spells it. -/
structure Numeral where
  negative : Bool
  /-- The digits before the point, read as a number. -/
  whole : Nat
  /-- The digits after the point; without any there is no point. -/
  fraction : List (Fin 10)
  /-- The power of ten, if one is written. -/
  exponent : Option Int
deriving DecidableEq, Inhabited, Repr

namespace Numeral

/-! ## The value of a numeral -/

/-- Drops digits from the end of a number until it fits into 64 bits, and counts them, after those
that have been dropped before. -/
def fit (dropped : Nat) (n : Nat) : Nat × Nat :=
  if n < UInt64.size then (n, dropped) else fit (dropped + 1) (n / 10)
termination_by n
decreasing_by
  have hsize : 0 < UInt64.size := by decide
  omega

/-- Appends digits to a significand while it fits into 64 bits, and counts them, after those that
have been appended before. -/
def append (appended significand : Nat) : List (Fin 10) → Nat × Nat
  | [] => (significand, appended)
  | digit :: digits =>
    let next := significand * 10 + digit.val
    if next < UInt64.size then append (appended + 1) next digits else (significand, appended)

/-- The significand and the power of ten of a numeral. -/
def parts (n : Numeral) : Nat × Int :=
  let whole := fit 0 n.whole
  let all := append 0 whole.1 n.fraction
  (all.1, n.exponent.getD 0 + whole.2 - all.2)

/-- The rank of the number nearest to a power of ten. -/
def powerRank (n : Nat) : Nat :=
  Decimal.rank ⟨1, n⟩

/-- Scales a finite magnitude by a power of ten, in steps of at most `10 ^ 308`.  There is no result
where it would be too large. -/
def scale (rank : Nat) (exponent : Int) : Option Nat :=
  if 308 < exponent then if rank = 0 then some 0 else none
  else if 0 ≤ exponent then
    let scaled := Binary64.mulRank rank (powerRank exponent.toNat)
    if scaled < Binary64.infinityRank then some scaled else none
  else if -308 ≤ exponent then
    some (Binary64.divRank rank (powerRank (-exponent).toNat))
  else if rank = 0 then some 0
  else scale (Binary64.divRank rank (powerRank 308)) (exponent + 308)
termination_by (-exponent).toNat
decreasing_by omega

/-- The number that a numeral denotes, unless it is too large. -/
def value? (n : Numeral) : Option Binary64 :=
  (scale (Binary64.roundRatio n.parts.1 1) n.parts.2).map (Binary64.ofRank n.negative)

/-- The whole number that a numeral of digits alone denotes, if it fits into 64 bits. -/
def natural? (n : Numeral) : Option Nat :=
  if n.negative = false ∧ n.fraction = [] ∧ n.exponent = none ∧ n.whole < UInt64.size then
    some n.whole
  else none

/-! ## The text of a numeral -/

/-- The numeral of an integer. -/
def ofInt (n : Int) : Numeral :=
  ⟨decide (n < 0), n.natAbs, [], none⟩

/-- A digit as a character. -/
def digitChar (digit : Fin 10) : Char :=
  Nat.digitChar digit.val

/-- The numeral as a document spells it. -/
def text (n : Numeral) : List Char :=
  let sign := if n.negative then ['-'] else []
  let fraction := if n.fraction = [] then [] else '.' :: n.fraction.map digitChar
  let exponent := match n.exponent with
    | none => []
    | some e => 'e' :: ((if e < 0 then ['-'] else []) ++ Nat.toDigits 10 e.natAbs)
  sign ++ Nat.toDigits 10 n.whole ++ fraction ++ exponent

/-! ## Splitting a numeral off a text -/

/-- The digit that a character is; characters that are none count as zero. -/
def digit (c : Char) : Fin 10 :=
  Fin.ofNat 10 (c.toNat - '0'.toNat)

/-- An optional minus sign before a text: whether it is there, and what follows. -/
def takeMinus : List Char → Bool × List Char
  | '-' :: rest => (true, rest)
  | rest => (false, rest)

/-- Splits off the whole part: a zero alone, or digits that start with no zero. -/
def wholeFrom? (cs : List Char) : Option (Nat × List Char) :=
  match cs.takeWhile Char.isDigit with
  | [] => none
  | '0' :: _ :: _ => none
  | digits => some (Nat.ofDigitChars 10 digits 0, cs.dropWhile Char.isDigit)

/-- Splits off the fraction: nothing, or a point and digits.  There is no result where a point lacks
its digits. -/
def fractionFrom? : List Char → Option (List (Fin 10) × List Char)
  | '.' :: rest =>
    match rest.takeWhile Char.isDigit with
    | [] => none
    | digits => some (digits.map digit, rest.dropWhile Char.isDigit)
  | rest => some ([], rest)

/-- Splits off the exponent: nothing, or a mark, an optional sign and digits.  There is no result
where a mark lacks its digits. -/
def exponentFrom? : List Char → Option (Option Int × List Char)
  | [] => some (none, [])
  | mark :: rest =>
    if mark = 'e' ∨ mark = 'E' then
      let signed := Eligibility.Numeral.takeSign rest
      match signed.2.takeWhile Char.isDigit with
      | [] => none
      | digits =>
        let size : Int := Nat.ofDigitChars 10 digits 0
        some (some (if signed.1 then -size else size), signed.2.dropWhile Char.isDigit)
    else some (none, mark :: rest)

/-- Splits a numeral off a text. -/
def from? (cs : List Char) : Option (Numeral × List Char) :=
  let signed := takeMinus cs
  match wholeFrom? signed.2 with
  | none => none
  | some (whole, afterWhole) =>
    match fractionFrom? afterWhole with
    | none => none
    | some (fraction, afterFraction) =>
      match exponentFrom? afterFraction with
      | none => none
      | some (exponent, rest) => some (⟨signed.1, whole, fraction, exponent⟩, rest)

theorem length_takeMinus_le (cs : List Char) : (takeMinus cs).2.length ≤ cs.length := by
  unfold takeMinus
  split <;> simp

/-- A whole part takes at least one digit. -/
theorem length_lt_of_wholeFrom? {cs rest : List Char} {whole : Nat}
    (h : wholeFrom? cs = some (whole, rest)) : rest.length < cs.length := by
  have hsplit := congrArg List.length
    (List.takeWhile_append_dropWhile (p := Char.isDigit) (l := cs))
  rw [List.length_append] at hsplit
  unfold wholeFrom? at h
  split at h
  · simp at h
  · simp at h
  · rename_i hnil _
    have hpos := List.length_pos_iff.2 hnil
    simp only [Option.some.injEq, Prod.mk.injEq] at h
    rw [← h.2]
    omega

theorem length_le_of_fractionFrom? {cs rest : List Char} {fraction : List (Fin 10)}
    (h : fractionFrom? cs = some (fraction, rest)) : rest.length ≤ cs.length := by
  unfold fractionFrom? at h
  split at h
  · split at h
    · simp at h
    · simp only [Option.some.injEq, Prod.mk.injEq] at h
      rw [← h.2]
      exact Nat.le_succ_of_le (List.dropWhile_sublist _).length_le
  · simp only [Option.some.injEq, Prod.mk.injEq] at h
    simp [← h.2]

/-- An exponent that is missing takes nothing. -/
theorem length_le_of_exponentFrom? {cs rest : List Char} {exponent : Option Int}
    (h : exponentFrom? cs = some (exponent, rest)) : rest.length ≤ cs.length := by
  unfold exponentFrom? at h
  split at h
  · simp only [Option.some.injEq, Prod.mk.injEq] at h
    simp [← h.2]
  · rename_i mark after
    simp only at h
    split at h
    · split at h
      · simp at h
      · simp only [Option.some.injEq, Prod.mk.injEq] at h
        rw [← h.2]
        exact Nat.le_succ_of_le (Nat.le_trans (List.dropWhile_sublist _).length_le
          (Eligibility.Numeral.length_takeSign_le after))
    · simp only [Option.some.injEq, Prod.mk.injEq] at h
      simp [← h.2]

/-- A numeral takes at least one character, whatever parts it has. -/
theorem length_lt_of_from? {cs rest : List Char} {n : Numeral} (h : from? cs = some (n, rest)) :
    rest.length < cs.length := by
  unfold from? at h
  simp only at h
  split at h
  · simp at h
  · rename_i hwhole
    split at h
    · simp at h
    · rename_i hfraction
      split at h
      · simp at h
      · rename_i hexponent
        simp only [Option.some.injEq, Prod.mk.injEq] at h
        have h1 := length_lt_of_wholeFrom? hwhole
        have h2 := length_le_of_fractionFrom? hfraction
        have h3 := length_le_of_exponentFrom? hexponent
        have h4 := length_takeMinus_le cs
        rw [← h.2]
        omega

end Numeral
end Json
end Eligibility
