import Eligibility.Proofs.Record.Inserts
import Eligibility.Proofs.Record.Numbers

/-!
# Records of listed pairs

Names and values may be listed in an object or inserted one after the other.  Both ways lead to the same
record, however the object is spelled and laid out: where a name is listed again, in whatever spelling,
its value takes the place of the one before.

**Results.**
* `Json.Numeral.value?_ofInt`: whole numbers that fit a double are read as they are converted;
* `Record.readMembers?_listing`: the members of the object are inserted in order;
* `Record.ofJson_listing`: the record of an object of listed pairs, and what it holds.
-/

namespace Eligibility

open Json

/-! ## Values -/

namespace Json
namespace Numeral

theorem decimal_ofInt (n : Int) : (ofInt n).decimal = ⟨n.natAbs, 0⟩ :=
  rfl

/-- Whole numbers below `2 ^ 53` are read as they are converted. -/
theorem value?_ofInt
    {n : Int}
    (h : n.natAbs < 2 ^ 53) :
    (ofInt n).value? = some (Binary64.ofInt n) := by
  have hshort : Short (ofInt n).decimal := by
    rw [decimal_ofInt]
    exact .inl ⟨h, by simp, by simp⟩
  have hrank : Decimal.rank ⟨n.natAbs, ((0 : Nat) : Int)⟩ = Binary64.roundRatio n.natAbs 1 := by
    rw [rank_whole (Nat.zero_le 22), Nat.pow_zero, Nat.mul_one]
  rw [value?_of_short hshort, nearest, decimal_ofInt]
  exact congrArg (fun rank => some (Binary64.ofRank _ rank)) hrank

end Numeral
end Json

/-- A value as it is supplied: a text, or an integer of 32 bits. -/
inductive Supplied
  | text (s : String)
  | int (n : Int32)
deriving DecidableEq, Repr

namespace Supplied

/-- The value of a field that is supplied with it. -/
def fieldValue : Supplied → FieldValue
  | text s => .text s
  | int n => .number (Binary64.ofInt n.toInt)

/-- The value as a document has it; an integer is a numeral of digits alone. -/
def toValue : Supplied → Value
  | text s => .text s
  | int n => .number (Numeral.ofInt n.toInt)

theorem natAbs_toInt_lt (n : Int32) : n.toInt.natAbs < 2 ^ 53 := by
  have hlow := n.le_toInt
  have hhigh := n.toInt_lt
  omega

theorem read?_toValue (v : Supplied) :
    FieldValue.read? v.toValue.toDocument = some v.fieldValue := by
  cases v with
  | text s => rfl
  | int n => exact congrArg (Option.map FieldValue.number) (Numeral.value?_ofInt (natAbs_toInt_lt n))

end Supplied

/-! ## Pairs of names and values -/

namespace Record

/-- The object that lists the pairs in order. -/
def listing (pairs : List (String × Supplied)) : Value :=
  .object (pairs.map fun p => (p.1, p.2.toValue))

/-- The record that the pairs are inserted into, in order. -/
def collected (pairs : List (String × Supplied)) : Record :=
  Keyed.ofList (pairs.map fun p => (p.1, p.2.fieldValue))

/-- The members of the object are inserted in order. -/
theorem readMembers?_listing
    (r : Record) (pairs : List (String × Supplied)) :
    readMembers? r (Value.membersToDocuments (pairs.map fun p => (p.1, p.2.toValue))) =
      some ((pairs.map fun p => (p.1, p.2.fieldValue)).foldl (fun r e => r.insert e.1 e.2) r) := by
  induction pairs generalizing r with
  | nil => rfl
  | cons p pairs ih =>
      rw [List.map_cons, List.map_cons, List.foldl_cons, Value.membersToDocuments]
      simp only [readMembers?, p.2.read?_toValue]
      exact ih _

theorem ofJson_of_laid
    {pairs : List (String × Supplied)} {s : String}
    (h : Lexeme.Laid (listing pairs).toDocument.lexemes s.toList) :
    ofJson s = .ok (collected pairs) := by
  rw [ofJson, Document.ofText_of_laid (listing pairs).complete_toDocument h, listing, Value.toDocument]
  simp only [readMembers?_listing]
  rfl

theorem find?_collected
    (pairs : List (String × Supplied)) (name : String) :
    (collected pairs).find? name =
      (pairs.filter fun p => p.1 == name).getLast?.map fun p => p.2.fieldValue := by
  rw [collected, Keyed.find?_ofList, Keyed.under, List.filter_map, List.getLast?_map, Option.map_map]
  rfl

theorem names_collected (pairs : List (String × Supplied)) :
    (pairs.map fun p => (p.1, p.2.fieldValue)).map Prod.fst = pairs.map Prod.fst := by
  rw [List.map_map]
  rfl

/-- **Listed and inserted.**  However it is spelled and laid out, the object that lists pairs of names
and values is read as the record that they are inserted into in order, and so it is as it is written.
The record gives to a name the value of the last pair with the name, it has the names that are listed,
and each of them once. -/
theorem ofJson_listing (pairs : List (String × Supplied)) :
    (∀ s, Lexeme.Laid (listing pairs).toDocument.lexemes s.toList →
      ofJson s = .ok (collected pairs)) ∧
      ofJson (listing pairs).write = .ok (collected pairs) ∧
      (∀ name, (collected pairs).find? name =
        (pairs.filter fun p => p.1 == name).getLast?.map fun p => p.2.fieldValue) ∧
      (∀ name, (collected pairs).contains name = true ↔ name ∈ pairs.map Prod.fst) ∧
      (collected pairs).size = (pairs.map Prod.fst).toFinset.card := by
  refine ⟨fun s => ofJson_of_laid, ofJson_of_laid (listing pairs).laid_write, find?_collected pairs,
    fun name => ?_, ?_⟩
  · rw [collected, Keyed.contains_ofList_iff, names_collected]
  · rw [collected, Keyed.size_ofList, names_collected]

/-- The same name in two spellings, with an integer first and then a text. -/
theorem ofJson_listing_escaped_name :
    ∃ s pairs, s = "\x7b \"a\" :-7,\"b\":-2147483648 ,\n\"\\u0061\":\"\\/\"\x7d" ∧
      pairs = [("a", Supplied.int (-7)), ("b", .int (-2147483648)), ("a", .text "/")] ∧
      ofJson s = .ok (collected pairs) ∧
      (collected pairs).find? "a" = some (.text "/") ∧
      (collected pairs).find? "b" = some (.number ⟨0xC1E0000000000000⟩) ∧
      (collected pairs).size = 2 := by
  refine ⟨_, _, rfl, rfl, ?_⟩
  obtain ⟨hread, -, hfind, -, hsize⟩ :=
    ofJson_listing [("a", .int (-7)), ("b", .int (-2147483648)), ("a", .text "/")]
  refine ⟨hread _ (Lexeme.laid_of_ofText (by decide +kernel) (by decide +kernel)), ?_, ?_, ?_⟩
  · rw [hfind]
    decide +kernel
  · rw [hfind]
    decide +kernel
  · rw [hsize]
    decide +kernel

end Record
end Eligibility
