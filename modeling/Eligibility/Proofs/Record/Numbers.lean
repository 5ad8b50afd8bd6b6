import Eligibility.Proofs.Condition.Coercion
import Eligibility.Proofs.Json.Scaling
import Eligibility.Proofs.Json.Written
import Eligibility.Proofs.Number.PlainText
import Eligibility.Record.Reading

/-!
# A numeral in a record and in a condition

The same numeral may stand in a record and, without quotes, in a condition.  The condition reads it as
the nearest number, or as a text where that is not finite; the record reads it by scaling.  Whether the
condition holds of the record is decided by whether the two come out the same.

**Results.**
* `Literal.ofBare_spelled`: the literal that a numeral is;
* `Record.ofJson_numeralText`: the record that a numeral is put into;
* `Condition.verdict_equal_numeral`: how far the two are apart, and when they are the same.
-/

namespace Eligibility

open Text (Stops stops_nil)

namespace Json
namespace Numeral

open Binary64

/-- The number nearest to a numeral, infinite where that is too large. -/
def nearest (n : Numeral) : Binary64 :=
  ofRank n.negative n.decimal.rank

theorem rank_nearest (n : Numeral) : n.nearest.rank = n.decimal.rank := by
  obtain ⟨k, hrank, -⟩ := n.decimal.exists_nearest_rank
  have hweight : infinityRank < signWeight := by decide
  rw [nearest, rank_ofRank _ _ (by omega)]

@[simp] theorem negative_nearest (n : Numeral) : n.nearest.negative = n.negative :=
  negative_ofRank _ _

/-! ## A numeral as free text -/

theorem val_digit
    {c : Char}
    (hc : c.isDigit = true) :
    (digit c).val = c.toNat - '0'.toNat := by
  simp only [Char.isDigit, Bool.and_eq_true, decide_eq_true_eq] at hc
  have hle : c.toNat ≤ 57 := UInt32.le_iff_toNat_le.mp hc.2
  have hzero : '0'.toNat = 48 := rfl
  rw [digit, Fin.val_ofNat]
  exact Nat.mod_eq_of_lt (by omega)

theorem ofDigitChars_eq_followedBy
    {cs : List Char}
    (hcs : ∀ c ∈ cs, c.isDigit = true)
    (s : Nat) :
    Nat.ofDigitChars 10 cs s = followedBy s (cs.map digit) := by
  induction cs generalizing s with
  | nil => rfl
  | cons c cs ih =>
      rw [Nat.ofDigitChars_cons, List.map_cons, followedBy_cons, val_digit (hcs c (by simp)),
        ih (fun c hc => hcs c (List.mem_cons_of_mem _ hc)), Nat.mul_comm]

theorem exponent?_spelled
    {exponent : Option Int} {cs : List Char}
    (h : ExponentSpelled exponent cs) :
    Eligibility.Numeral.exponent? cs = some (exponent.getD 0) := by
  cases h with
  | none => rfl
  | @digits mark negative sign cs hmark hsign h =>
      have hsigned := takeSign_append hsign h []
      rw [List.append_nil] at hsigned
      have hall : cs ≠ [] ∧ cs.all Char.isDigit = true := ⟨h.ne_nil, List.all_eq_true.mpr h.isDigit⟩
      rw [Eligibility.Numeral.exponent?, if_pos hmark, hsigned]
      simp only [if_pos hall, Option.getD_some]

theorem takeFraction_spelled
    {fraction : List (Fin 10)} {cs rest : List Char}
    (h : FractionSpelled fraction cs)
    (hdigit : Stops Char.isDigit rest)
    (hpoint : Stops (· == '.') rest) :
    ∃ digits, Eligibility.Numeral.takeFraction (cs ++ rest) = (digits, rest) ∧
      (∀ c ∈ digits, c.isDigit = true) ∧ digits.map digit = fraction := by
  cases h with
  | none =>
      refine ⟨[], ?_, by simp, rfl⟩
      rw [List.nil_append]
      unfold Eligibility.Numeral.takeFraction
      split
      · exact absurd hpoint (by simp)
      · rfl
  | @digits cs h =>
      obtain ⟨htake, hdrop⟩ := h.takeWhile_append hdigit
      refine ⟨cs, ?_, h.isDigit, rfl⟩
      rw [List.cons_append, Eligibility.Numeral.takeFraction, htake, hdrop]

/-- Read as free text, a numeral is the decimal of all its digits. -/
theorem number?_spelled
    {n : Numeral} {cs : List Char}
    (h : n.Spelled cs) :
    Eligibility.Numeral.number? cs = some n.nearest := by
  cases h with
  | @mk negative whole fraction exponent fractionText exponentText hwhole hzero hfraction hexponent =>
      have hdigit : Stops Char.isDigit exponentText := by
        simpa using stops_exponent hexponent (by decide) (stops_nil _)
      have hpoint : Stops (· == '.') exponentText := by
        simpa using stops_exponent hexponent (by decide) (stops_nil _)
      obtain ⟨digits, hdigits, hall, hmap⟩ := takeFraction_spelled hfraction hdigit hpoint
      obtain ⟨htake, hdrop⟩ :=
        hwhole.takeWhile_append (stops_fraction hfraction (by decide) hdigit)
      have hsign : Eligibility.Numeral.takeSign
          ((if negative then ['-'] else []) ++ (whole ++ (fractionText ++ exponentText))) =
            (negative, whole ++ (fractionText ++ exponentText)) := by
        cases negative with
        | true => rfl
        | false => exact takeSign_append .none hwhole _
      have hdecimal : Eligibility.Numeral.decimal? (whole ++ (fractionText ++ exponentText)) =
          some (decimal ⟨negative, Nat.ofDigitChars 10 whole 0, fraction, exponent⟩) := by
        rw [Eligibility.Numeral.decimal?, htake, hdrop, hdigits, exponent?_spelled hexponent]
        simp only [hwhole.ne_nil, false_and, if_false, Option.map_some, decimal]
        rw [Nat.ofDigitChars_append, ofDigitChars_eq_followedBy hall, hmap, ← hmap, List.length_map]
      rw [Eligibility.Numeral.number?, hsign, hdecimal, Option.map_some]
      rfl

theorem finite?_spelled
    {n : Numeral} {cs : List Char}
    (h : n.Spelled cs) :
    Eligibility.Numeral.finite? (String.ofList cs) = (some n.nearest).filter Binary64.isFinite := by
  have hblank : ∀ c ∈ cs, Text.isBlank c = false := by
    intro c hc
    rcases h.mem hc with hdigit | rfl | rfl | rfl | rfl | rfl
    · exact Text.isBlank_of_isWord (Text.isWord_of_ascii hdigit)
    all_goals decide
  rw [Eligibility.Numeral.finite?, String.toList_ofList, Text.trim_eq_self hblank,
    number?_spelled h]

/-! ## A numeral in a document -/

theorem near_of_value?
    {n : Numeral} {x : Binary64}
    (h : n.value? = some x) :
    x.isFinite = true ∧ x.negative = n.negative ∧
      x.rank ≤ n.nearest.rank + 5 ∧ n.nearest.rank ≤ x.rank + 5 := by
  obtain ⟨k, hscale, rfl⟩ := Option.map_eq_some_iff.mp h
  obtain ⟨hk, hnear⟩ := scale_near hscale
  have hweight : infinityRank < signWeight := by decide
  rw [isFinite, decide_eq_true_eq, rank_ofRank _ _ (hk.trans hweight), negative_ofRank, rank_nearest]
  exact ⟨hk, rfl, hnear⟩

theorem value?_of_short
    {n : Numeral}
    (h : Short n.decimal) :
    n.value? = some n.nearest := by
  rw [value?, scale_short h]
  rfl

end Numeral
end Json

/-- As an operand a numeral is the nearest number, or its own text where that is infinite. -/
theorem Literal.ofBare_spelled
    {n : Json.Numeral} {cs : List Char}
    (h : n.Spelled cs) :
    Literal.ofBare (String.ofList cs) =
      if n.nearest.isFinite then .number n.nearest else .text (String.ofList cs) := by
  rw [Literal.ofBare, Json.Numeral.finite?_spelled h]
  cases hfinite : n.nearest.isFinite with
  | true => rw [Option.filter_some_pos hfinite, if_pos rfl]
  | false =>
      rw [Option.filter_some_neg (by simp [hfinite]), if_neg Bool.false_ne_true]

/-! ## A numeral in a record -/

namespace Record

/-- The object with a numeral as its only member. -/
def numeralText (field : String) (numeral : List Char) : String :=
  String.ofList ('\x7b' :: (Json.Value.quote field ++ ':' :: ' ' :: (numeral ++ ['\x7d'])))

theorem ofText_numeralText
    {n : Json.Numeral} {cs : List Char}
    (h : n.Spelled cs)
    (field : String) :
    Json.Document.ofText (numeralText field cs) =
      (.object [(some field, .number n)] true, []) := by
  apply Json.Document.ofText_of_laid
  · exact ⟨rfl, trivial, trivial⟩
  · rw [numeralText, String.toList_ofList]
    exact Json.Value.laid_mark rfl (Json.Value.laid_quote field (Json.Value.laid_mark rfl
      (.space rfl (.lexeme (.number h) (Json.Value.laid_mark rfl .nil)))))

/-- In a record a numeral is what the reader of documents makes of it. -/
theorem ofJson_numeralText
    {n : Json.Numeral} {cs : List Char}
    (h : n.Spelled cs)
    (field : String) :
    ofJson (numeralText field cs) =
      match n.value? with
      | some x => .ok (single field (.number x))
      | none => .error .malformedDocument := by
  rw [ofJson, ofText_numeralText h]
  simp only [readMembers?, FieldValue.read?]
  cases n.value? <;> rfl

end Record

namespace Condition

open Binary64

/-- A finite number is equal to the literal of a numeral exactly if it is the nearest number. -/
theorem holdsOf_equal_ofBare
    {n : Json.Numeral} {cs : List Char}
    (hspelled : n.Spelled cs)
    {x : Binary64}
    (hx : x.isFinite = true)
    (hsign : x.negative = n.negative)
    (field : String) :
    holdsOf ⟨field, .equal, Literal.ofBare (String.ofList cs)⟩ (.number x) =
      decide (x = n.nearest) := by
  have hcompares (literal : Literal) (hliteral : ∀ y, literal = .number y → y.isFinite = true) :
      holdsOf ⟨field, .equal, literal⟩ (.number x) = true ↔
        Comparator.equal.Compares (FieldValue.number x).operand literal.operand :=
    holdsOf_iff_compares (.inr hliteral)
  rw [Literal.ofBare_spelled hspelled, Bool.eq_iff_iff, decide_eq_true_eq]
  cases hfinite : n.nearest.isFinite with
  | true =>
      rw [if_pos rfl, hcompares _ (by rintro y ⟨⟩; exact hfinite), FieldValue.operand_number hx,
        Literal.operand_number hfinite]
      have hsame : x.negative = n.nearest.negative := by rw [hsign, n.negative_nearest]
      exact ⟨eq_of_worth_eq hsame, congrArg worth⟩
  | false =>
      have htext : Numeral.finite? (String.ofList cs) = none := by
        rw [Json.Numeral.finite?_spelled hspelled, Option.filter_some_neg (by simp [hfinite])]
      rw [if_neg Bool.false_ne_true, hcompares _ (by simp), FieldValue.operand_number hx,
        Literal.operand_text, htext]
      refine iff_of_false ?_ ?_
      · -- a number that is shown as the numeral would be what the numeral reads as
        intro hbytes
        have hshown : x.shown = String.ofList cs := Text.bytes_inj.mp hbytes
        have hread := Numeral.finite?_shown hx
        rw [hshown, htext] at hread
        exact Option.some_ne_none x hread.symm
      · rintro rfl
        exact absurd (hx.symm.trans hfinite) (by decide)

/-- **A numeral read twice.**  Let a numeral be put into a record, and without quotes into the condition
that the field is equal to it.  The literal is the record's number, and the condition holds, exactly if
this number is the nearest one.  It is, for numerals with few digits and a small exponent; for others it
lies at most five ranks beside the nearest one and has the same sign. -/
theorem verdict_equal_numeral
    {n : Json.Numeral} {cs : List Char}
    (hspelled : n.Spelled cs)
    {field : String} {r : Record}
    (h : Record.ofJson (Record.numeralText field cs) = .ok r) :
    ∃ x, r = Record.single field (.number x) ∧
      (Literal.ofBare (String.ofList cs) = .number x ↔ x = n.nearest) ∧
      Condition.verdict r ⟨field, .equal, Literal.ofBare (String.ofList cs)⟩ =
        .ok (decide (x = n.nearest)) ∧
      x.negative = n.nearest.negative ∧
      x.rank ≤ n.nearest.rank + 5 ∧ n.nearest.rank ≤ x.rank + 5 ∧
      (Json.Numeral.Short n.decimal → x = n.nearest) := by
  rw [Record.ofJson_numeralText hspelled] at h
  cases hvalue : n.value? with
  | none => simp [hvalue] at h
  | some x =>
      obtain rfl : Record.single field (.number x) = r := by simpa [hvalue] using h
      obtain ⟨hfinite, hsign, hle, hge⟩ := Json.Numeral.near_of_value? hvalue
      refine ⟨x, rfl, ?_, ?_, by rw [hsign, n.negative_nearest], hle, hge, ?_⟩
      · rw [Literal.ofBare_spelled hspelled]
        cases hnearest : n.nearest.isFinite with
        | true => simp [eq_comm]
        | false =>
            have hne : x ≠ n.nearest := by
              rintro rfl
              exact absurd (hfinite.symm.trans hnearest) (by decide)
            simp [hne]
      · rw [verdict, Record.find?_single]
        exact congrArg Except.ok (holdsOf_equal_ofBare hspelled hfinite hsign field)
      · intro hshort
        exact Option.some.inj (hvalue.symm.trans (Json.Numeral.value?_of_short hshort))

/-- Four digits are read alike: the condition that `f` is -12.50 holds of the record that says so. -/
theorem verdict_equal_numeral_short :
    Record.ofJson (Record.numeralText "f" "-12.50".toList) =
        .ok (Record.single "f" (.number ⟨0xC029000000000000⟩)) ∧
      Condition.verdict (Record.single "f" (.number ⟨0xC029000000000000⟩))
        ⟨"f", .equal, Literal.ofBare "-12.50"⟩ = .ok true := by
  let n : Json.Numeral := ⟨true, 12, [5, 0], none⟩
  have htext : n.text = "-12.50".toList := by decide +kernel
  have hspelled : n.Spelled "-12.50".toList := htext ▸ n.spelled_text
  have hshort : Json.Numeral.Short n.decimal := by decide
  have hnearest : n.nearest = ⟨0xC029000000000000⟩ := by decide +kernel
  have hread := Record.ofJson_numeralText hspelled "f"
  rw [Json.Numeral.value?_of_short hshort, hnearest] at hread
  obtain ⟨x, -, -, hverdict, -, -, -, hsame⟩ := verdict_equal_numeral hspelled hread
  rw [decide_eq_true (hsame hshort), String.ofList_toList] at hverdict
  exact ⟨hread, hverdict⟩

/-- A record reads 1e-23 as the number after the nearest one. -/
theorem numeral_read_apart :
    Record.ofJson (Record.numeralText "f" "1e-23".toList) =
        .ok (Record.single "f" (.number ⟨0x3B282DB34012B252⟩)) ∧
      Literal.ofBare "1e-23" = .number ⟨0x3B282DB34012B251⟩ ∧
      ¬ ∀ (n : Json.Numeral) (cs : List Char) (field : String) (r : Record), n.Spelled cs →
        Record.ofJson (Record.numeralText field cs) = .ok r →
        ∃ x, Literal.ofBare (String.ofList cs) = .number x ∧
          r = Record.single field (.number x) ∧
          Condition.verdict r ⟨field, .equal, Literal.ofBare (String.ofList cs)⟩ = .ok true := by
  let n : Json.Numeral := ⟨false, 1, [], some (-23)⟩
  have htext : n.text = "1e-23".toList := by decide +kernel
  have hspelled : n.Spelled "1e-23".toList := htext ▸ n.spelled_text
  have hparts : n.parts = (1, -((23 : Nat) : Int)) := by
    obtain ⟨hdigits, hexponent⟩ := Decimal.mk.inj (Json.Numeral.kept_eq (n := n) (by decide))
    exact Prod.ext hdigits hexponent
  have hvalue : n.value? = some ⟨0x3B282DB34012B252⟩ := by
    rw [Json.Numeral.value?, hparts, Json.Numeral.scale_part (by decide) (by decide)]
    decide +kernel
  have hnearest : n.nearest = ⟨0x3B282DB34012B251⟩ := by decide +kernel
  have hread := Record.ofJson_numeralText hspelled "f"
  rw [hvalue] at hread
  have hliteral := Literal.ofBare_spelled hspelled
  rw [hnearest, String.ofList_toList, if_pos (by decide)] at hliteral
  refine ⟨hread, hliteral, ?_⟩
  intro hall
  obtain ⟨x, hx, hr, -⟩ := hall n _ "f" _ hspelled hread
  rw [String.ofList_toList, hliteral] at hx
  obtain rfl := Literal.number.inj hx
  have hfield := congrArg (Keyed.find? · "f") hr
  simp at hfield

end Condition
end Eligibility
