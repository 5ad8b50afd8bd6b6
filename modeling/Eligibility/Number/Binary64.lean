/-!
# Binary floating-point numbers of 64 bits

A number is its 64 bits: a sign and, below it, a *rank*.  Ranks put the magnitudes in increasing
order: rank `0` is zero, rank `1` the least positive number `2 ^ -1074`, and so on up to
`infinityRank`, past which only not-a-number is left.  Order, finiteness and rounding are all stated
on ranks, so no operation of the machine's floating-point unit enters a proof.

**Results.**
* `ofRank_rank`: sign and rank make up the number;
* `rank_ofRank`, `negative_ofRank`: they are read back from a number built from them;
* `compare?_eq_none_iff`: two numbers fail to compare exactly when one of them is not a number.
-/

namespace Eligibility

/-- A floating-point number in the interchange format of 64 bits. -/
structure Binary64 where
  /-- The bits of the number, sign first. -/
  bits : UInt64
deriving DecidableEq, Inhabited, Repr

namespace Binary64

/-- The weight of the sign bit, `2 ^ 63`.  All ranks are smaller. -/
def signWeight : Nat := 0x8000000000000000

/-- The number of ranks from one power of two to the next, `2 ^ 52`. -/
def binade : Nat := 0x10000000000000

/-- The rank of infinity: larger than that of every finite number. -/
def infinityRank : Nat := 0x7FF0000000000000

/-- Whether the sign bit is set. -/
def negative (x : Binary64) : Bool :=
  decide (signWeight ≤ x.bits.toNat)

/-- The place of the magnitude in the increasing order of magnitudes. -/
def rank (x : Binary64) : Nat :=
  x.bits.toNat % signWeight

/-- The number with a given sign and rank. -/
def ofRank (negative : Bool) (rank : Nat) : Binary64 :=
  ⟨UInt64.ofNat (rank % signWeight + if negative then signWeight else 0)⟩

/-- Whether the number is neither infinite nor not-a-number. -/
def isFinite (x : Binary64) : Bool :=
  decide (x.rank < infinityRank)

/-- Whether the bits denote no number. -/
def isNaN (x : Binary64) : Bool :=
  decide (infinityRank < x.rank)

/-- A whole number that grows with the value; both zeros have key `0`. -/
def key (x : Binary64) : Int :=
  if x.negative then -(x.rank : Int) else x.rank

/-- The order of two values, when both are numbers. -/
def compare? (x y : Binary64) : Option Ordering :=
  if x.isNaN || y.isNaN then none else some (compare x.key y.key)

/-- The bits of a number are its rank, with the sign above it. -/
theorem bits_ofRank (negative : Bool) (rank : Nat) :
    (ofRank negative rank).bits.toNat =
      rank % signWeight + if negative then signWeight else 0 := by
  have h : rank % signWeight < signWeight := Nat.mod_lt _ (by decide)
  cases negative <;> simp only [ofRank, UInt64.toNat_ofNat'] <;> apply Nat.mod_eq_of_lt
    <;> simp only [signWeight, Bool.false_eq_true, if_false, if_true] at h ⊢ <;> omega

/-- A rank below the sign bit is read back from the number built from it. -/
@[simp] theorem rank_ofRank (negative : Bool) (rank : Nat) (h : rank < signWeight) :
    (ofRank negative rank).rank = rank := by
  unfold Binary64.rank
  rw [bits_ofRank]
  cases negative <;> simp only [signWeight, Bool.false_eq_true, if_false, if_true] at h ⊢ <;> omega

@[simp] theorem negative_ofRank (negative : Bool) (rank : Nat) :
    (ofRank negative rank).negative = negative := by
  have h : rank % signWeight < signWeight := Nat.mod_lt _ (by decide)
  unfold Binary64.negative
  rw [bits_ofRank]
  cases negative <;> simp only [Bool.false_eq_true, if_false, if_true, decide_eq_true_eq,
    decide_eq_false_iff_not] <;> omega

/-- A number is its sign and its rank. -/
theorem ofRank_rank (x : Binary64) : ofRank x.negative x.rank = x := by
  have hx : x.bits.toNat < UInt64.size := x.bits.toNat_lt_size
  have hbits : (ofRank x.negative x.rank).bits = x.bits := by
    apply UInt64.toNat_inj.1
    rw [bits_ofRank]
    simp only [UInt64.size] at hx
    by_cases h : signWeight ≤ x.bits.toNat
    · simp only [Binary64.negative, Binary64.rank, h, decide_true, if_true]
      simp only [signWeight] at h ⊢
      omega
    · simp only [Binary64.negative, Binary64.rank, h, decide_false, Bool.false_eq_true, if_false]
      simp only [signWeight] at h ⊢
      omega
  exact congrArg Binary64.mk hbits

theorem isNaN_of_isFinite {x : Binary64} (h : x.isFinite = true) : x.isNaN = false := by
  simp only [isFinite, decide_eq_true_eq] at h
  simp only [isNaN, decide_eq_false_iff_not]
  omega

/-- Two values have no order exactly when one of them is no number. -/
theorem compare?_eq_none_iff {x y : Binary64} :
    compare? x y = none ↔ x.isNaN = true ∨ y.isNaN = true := by
  unfold compare?
  split <;> simp_all

end Binary64
end Eligibility
