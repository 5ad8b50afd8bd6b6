import Eligibility.Json.Numeral
import Eligibility.Proofs.Number.PlainText

/-!
# Numerals in documents

`Spelled` says how a document may spell a numeral: the mark of an exponent has two forms, its sign may
be left out or a plus, and its digits may start with zeros.  However it is spelled, a numeral is split
off as it was, if the text after it does not go on with a digit, a point or the mark of an exponent;
and what is split off spells the numeral.

**Results.**
* `from?_append`: a spelled numeral is split off as itself;
* `exists_spelled_of_from?`: what is split off is a spelling;
* `spelled_text`: the written form of a numeral is one of its spellings.
-/

namespace Eligibility
namespace Json
namespace Numeral

open Text

/-- Whether a numeral before the character may go on with it. -/
def extendsNumeral (c : Char) : Bool :=
  c.isDigit || c == '.' || c == 'e' || c == 'E'

/-- The text parts from a numeral before it. -/
def Parts (rest : List Char) : Prop :=
  Stops extendsNumeral rest

theorem Parts.stops_isDigit
    {rest : List Char}
    (h : Parts rest) :
    Stops Char.isDigit rest := by
  refine h.mono ?_
  intro c hc
  simp only [extendsNumeral, Bool.or_eq_false_iff] at hc
  exact hc.1.1.1

theorem Parts.stops_point
    {rest : List Char}
    (h : Parts rest) :
    Stops (· == '.') rest := by
  refine h.mono ?_
  intro c hc
  simp only [extendsNumeral, Bool.or_eq_false_iff] at hc
  exact hc.1.1.2

/-! ## Digits -/

theorem toDigits_eq_zero_cons
    {n : Nat} {more : List Char}
    (h : Nat.toDigits 10 n = '0' :: more) :
    n = 0 ∧ more = [] := by
  induction n using Nat.strongRecOn generalizing more with
  | ind n ih =>
      by_cases hlt : n < 10
      · rw [Nat.toDigits_of_lt_base hlt] at h
        obtain ⟨hdigit, hmore⟩ := List.cons.inj h
        exact ⟨Nat.digitChar_eq_zero.mp hdigit, hmore.symm⟩
      · have hle : 10 ≤ n := Nat.not_lt.mp hlt
        rw [Nat.toDigits_of_base_le (by decide) hle] at h
        cases hfirst : Nat.toDigits 10 (n / 10) with
        | nil => exact absurd hfirst Nat.toDigits_ne_nil
        | cons c digits =>
            rw [hfirst, List.cons_append] at h
            obtain ⟨rfl, -⟩ := List.cons.inj h
            have hzero := (ih (n / 10) (by omega) hfirst).1
            omega

theorem ne_zero_cons_of_toDigits
    (n : Nat) (c : Char) (more : List Char) :
    Nat.toDigits 10 n ≠ '0' :: c :: more := by
  intro h
  exact absurd (toDigits_eq_zero_cons h).2 (by simp)

theorem isDigit_of_mem_toDigits
    {n : Nat} {c : Char}
    (h : c ∈ Nat.toDigits 10 n) :
    c.isDigit = true :=
  Nat.isDigit_of_mem_toDigits (by decide) (by decide) h

theorem isDigit_digitChar (digit : Fin 10) : (digitChar digit).isDigit = true := by
  revert digit
  decide

theorem digit_digitChar (d : Fin 10) : digit (digitChar d) = d := by
  revert d
  decide

theorem map_digit_digitChar (digits : List (Fin 10)) :
    (digits.map digitChar).map digit = digits := by
  rw [List.map_map]
  exact (List.map_congr_left fun d _ => digit_digitChar d).trans (List.map_id digits)

/-! ## Spellings -/

/-- One digit or more. -/
structure Digits (cs : List Char) : Prop where
  ne_nil : cs ≠ []
  isDigit : ∀ c ∈ cs, c.isDigit = true

/-- How a fraction may be spelled. -/
inductive FractionSpelled : List (Fin 10) → List Char → Prop
  | none : FractionSpelled [] []
  | digits {cs : List Char} (h : Digits cs) : FractionSpelled (cs.map digit) ('.' :: cs)

/-- How the sign of an exponent may be spelled, given whether it is a minus sign. -/
inductive SignSpelled : Bool → List Char → Prop
  | none : SignSpelled false []
  | plus : SignSpelled false ['+']
  | minus : SignSpelled true ['-']

/-- How an exponent may be spelled. -/
inductive ExponentSpelled : Option Int → List Char → Prop
  | none : ExponentSpelled none []
  | digits {mark : Char} {negative : Bool} {sign cs : List Char}
      (hmark : mark = 'e' ∨ mark = 'E') (hsign : SignSpelled negative sign) (h : Digits cs) :
      ExponentSpelled
        (some (if negative then -(Nat.ofDigitChars 10 cs 0 : Int) else Nat.ofDigitChars 10 cs 0))
        (mark :: (sign ++ cs))

/-- How a numeral may be spelled.  Its whole part has no superfluous zeros. -/
inductive Spelled : Numeral → List Char → Prop
  | mk {negative : Bool} {whole : List Char} {fraction : List (Fin 10)} {exponent : Option Int}
      {fractionText exponentText : List Char}
      (hwhole : Digits whole)
      (hzero : ∀ c more, whole ≠ '0' :: c :: more)
      (hfraction : FractionSpelled fraction fractionText)
      (hexponent : ExponentSpelled exponent exponentText) :
      Spelled ⟨negative, Nat.ofDigitChars 10 whole 0, fraction, exponent⟩
        ((if negative then ['-'] else []) ++ (whole ++ (fractionText ++ exponentText)))

theorem digits_toDigits (n : Nat) : Digits (Nat.toDigits 10 n) where
  ne_nil := Nat.toDigits_ne_nil
  isDigit _ h := isDigit_of_mem_toDigits h

theorem fractionSpelled_text (fraction : List (Fin 10)) :
    FractionSpelled fraction
      (if fraction = [] then [] else '.' :: fraction.map digitChar) := by
  split
  · rename_i hnil
    rw [hnil]
    exact .none
  · rename_i hne
    have hdigits : Digits (fraction.map digitChar) := by
      refine ⟨mt List.map_eq_nil_iff.mp hne, ?_⟩
      intro c hc
      obtain ⟨d, -, rfl⟩ := List.mem_map.mp hc
      exact isDigit_digitChar d
    have hspelled := FractionSpelled.digits hdigits
    rwa [map_digit_digitChar] at hspelled

theorem exponentSpelled_text (e : Int) :
    ExponentSpelled (some e)
      ('e' :: ((if e < 0 then ['-'] else []) ++ Nat.toDigits 10 e.natAbs)) := by
  by_cases he : e < 0
  · have hspelled := ExponentSpelled.digits (.inl rfl) .minus (digits_toDigits e.natAbs)
    have hvalue : -(e.natAbs : Int) = e := by omega
    rw [Nat.ofDigitChars_ten_toDigits, if_pos rfl, hvalue] at hspelled
    rwa [if_pos he]
  · have hspelled := ExponentSpelled.digits (.inl rfl) .none (digits_toDigits e.natAbs)
    have hvalue : (e.natAbs : Int) = e := by omega
    rw [Nat.ofDigitChars_ten_toDigits, if_neg Bool.false_ne_true, hvalue] at hspelled
    rwa [if_neg he]

theorem spelled_text (n : Numeral) : n.Spelled n.text := by
  obtain ⟨negative, whole, fraction, exponent⟩ := n
  have hspelled {cs : List Char} (h : ExponentSpelled exponent cs) :
      Spelled ⟨negative, Nat.ofDigitChars 10 (Nat.toDigits 10 whole) 0, fraction, exponent⟩
        ((if negative then ['-'] else []) ++ (Nat.toDigits 10 whole ++
          ((if fraction = [] then [] else '.' :: fraction.map digitChar) ++ cs))) :=
    .mk (digits_toDigits whole) (ne_zero_cons_of_toDigits whole) (fractionSpelled_text fraction) h
  rw [Nat.ofDigitChars_ten_toDigits] at hspelled
  cases exponent with
  | none => simpa [text] using hspelled .none
  | some e => simpa [text] using hspelled (exponentSpelled_text e)

/-! ## Splitting off a spelling -/

theorem Digits.takeWhile_append
    {cs rest : List Char}
    (h : Digits cs)
    (hrest : Stops Char.isDigit rest) :
    (cs ++ rest).takeWhile Char.isDigit = cs ∧ (cs ++ rest).dropWhile Char.isDigit = rest :=
  ⟨takeWhile_append_of_stops h.isDigit hrest, dropWhile_append_of_stops h.isDigit hrest⟩

theorem Digits.stops
    {p : Char → Bool} {cs : List Char}
    (h : Digits cs)
    (hp : ∀ c, c.isDigit = true → p c = false)
    (rest : List Char) :
    Stops p (cs ++ rest) :=
  stops_append h.ne_nil fun c hc => hp c (h.isDigit c hc)

theorem takeMinus_append
    (negative : Bool) {rest : List Char}
    (h : Stops (· == '-') rest) :
    takeMinus ((if negative then ['-'] else []) ++ rest) = (negative, rest) := by
  cases negative with
  | true => rfl
  | false =>
      cases rest with
      | nil => rfl
      | cons c more =>
          have hc : c ≠ '-' := by simpa using h
          simp only [Bool.false_eq_true, if_false, List.nil_append]
          unfold takeMinus
          split
          · rename_i heq
            exact absurd (List.cons.inj heq).1 hc
          · rfl

theorem wholeFrom?_append
    {whole rest : List Char}
    (hwhole : Digits whole)
    (hzero : ∀ c more, whole ≠ '0' :: c :: more)
    (hrest : Stops Char.isDigit rest) :
    wholeFrom? (whole ++ rest) = some (Nat.ofDigitChars 10 whole 0, rest) := by
  obtain ⟨htake, hdrop⟩ := hwhole.takeWhile_append hrest
  rw [wholeFrom?, htake, hdrop]
  split
  · exact absurd rfl hwhole.ne_nil
  · exact absurd rfl (hzero _ _)
  · rfl

theorem fractionFrom?_append
    {fraction : List (Fin 10)} {cs rest : List Char}
    (h : FractionSpelled fraction cs)
    (hdigit : Stops Char.isDigit rest)
    (hpoint : Stops (· == '.') rest) :
    fractionFrom? (cs ++ rest) = some (fraction, rest) := by
  cases h with
  | none =>
      rw [List.nil_append]
      unfold fractionFrom?
      split
      · exact absurd hpoint (by simp)
      · rfl
  | @digits cs h =>
      obtain ⟨htake, hdrop⟩ := h.takeWhile_append hdigit
      rw [List.cons_append, fractionFrom?, htake, hdrop]
      split
      · exact absurd rfl h.ne_nil
      · rfl

theorem takeSign_append
    {negative : Bool} {sign digits : List Char}
    (hsign : SignSpelled negative sign)
    (hdigits : Digits digits)
    (rest : List Char) :
    Eligibility.Numeral.takeSign (sign ++ (digits ++ rest)) = (negative, digits ++ rest) := by
  cases hsign with
  | plus => rfl
  | minus => rfl
  | none =>
      cases digits with
      | nil => exact absurd rfl hdigits.ne_nil
      | cons c more =>
          have hc : c.isDigit = true := hdigits.isDigit c List.mem_cons_self
          exact Eligibility.Numeral.takeSign_of_isDigit hc (more ++ rest)

theorem exponentFrom?_append
    {exponent : Option Int} {cs rest : List Char}
    (h : ExponentSpelled exponent cs)
    (hrest : Parts rest) :
    exponentFrom? (cs ++ rest) = some (exponent, rest) := by
  cases h with
  | none =>
      cases rest with
      | nil => rfl
      | cons c more =>
          have hc : extendsNumeral c = false := hrest
          simp only [extendsNumeral, Bool.or_eq_false_iff, beq_eq_false_iff_ne] at hc
          have hmark : ¬ (c = 'e' ∨ c = 'E') := by
            rintro (rfl | rfl)
            · exact hc.1.2 rfl
            · exact hc.2 rfl
          rw [List.nil_append, exponentFrom?, if_neg hmark]
  | @digits mark negative sign cs hmark hsign h =>
      obtain ⟨htake, hdrop⟩ := h.takeWhile_append hrest.stops_isDigit
      rw [List.cons_append, List.append_assoc, exponentFrom?, if_pos hmark,
        takeSign_append hsign h]
      simp only
      rw [htake, hdrop]
      split
      · exact absurd rfl h.ne_nil
      · rfl

theorem stops_exponent
    {p : Char → Bool} {exponent : Option Int} {cs rest : List Char}
    (h : ExponentSpelled exponent cs)
    (hmark : p 'e' = false ∧ p 'E' = false)
    (hrest : Stops p rest) :
    Stops p (cs ++ rest) := by
  cases h with
  | none => exact hrest
  | digits h => rcases h with rfl | rfl <;> simp [hmark]

theorem stops_fraction
    {p : Char → Bool} {fraction : List (Fin 10)} {cs rest : List Char}
    (h : FractionSpelled fraction cs)
    (hpoint : p '.' = false)
    (hrest : Stops p rest) :
    Stops p (cs ++ rest) := by
  cases h with
  | none => exact hrest
  | digits h => exact hpoint

/-- A spelled numeral is split off as itself where no more of it can follow. -/
theorem from?_append
    {n : Numeral} {cs rest : List Char}
    (h : n.Spelled cs)
    (hrest : Parts rest) :
    from? (cs ++ rest) = some (n, rest) := by
  cases h with
  | @mk negative whole fraction exponent fractionText exponentText hwhole hzero hfraction hexponent =>
      have hafter : Stops Char.isDigit (exponentText ++ rest) :=
        stops_exponent hexponent (by decide) hrest.stops_isDigit
      have hpoint : Stops (· == '.') (exponentText ++ rest) :=
        stops_exponent hexponent (by decide) hrest.stops_point
      have hminus : Stops (· == '-') (whole ++ (fractionText ++ (exponentText ++ rest))) := by
        refine hwhole.stops ?_ _
        intro c hc
        rw [beq_eq_false_iff_ne]
        exact ne_of_isDigit hc (by decide)
      simp only [List.append_assoc]
      rw [from?, takeMinus_append negative hminus]
      simp only [wholeFrom?_append hwhole hzero (stops_fraction hfraction (by decide) hafter),
        fractionFrom?_append hfraction hafter hpoint, exponentFrom?_append hexponent hrest]

/-! ## What is split off -/

theorem digits_takeWhile
    {cs : List Char}
    (h : cs.takeWhile Char.isDigit ≠ []) :
    Digits (cs.takeWhile Char.isDigit) where
  ne_nil := h
  isDigit _ hc := List.mem_takeWhile_imp hc

theorem append_takeMinus (cs : List Char) :
    (if (takeMinus cs).1 then ['-'] else []) ++ (takeMinus cs).2 = cs := by
  unfold takeMinus
  split <;> rfl

theorem exists_of_wholeFrom?
    {n : Nat} {cs rest : List Char}
    (h : wholeFrom? cs = some (n, rest)) :
    ∃ whole, cs = whole ++ rest ∧ Digits whole ∧ (∀ c more, whole ≠ '0' :: c :: more) ∧
      Nat.ofDigitChars 10 whole 0 = n := by
  unfold wholeFrom? at h
  split at h
  · simp at h
  · simp at h
  · rename_i hnil hzero
    obtain ⟨rfl, rfl⟩ := Prod.mk.inj (Option.some.inj h)
    exact ⟨_, List.takeWhile_append_dropWhile.symm, digits_takeWhile hnil, hzero, rfl⟩

theorem exists_of_fractionFrom?
    {fraction : List (Fin 10)} {cs rest : List Char}
    (h : fractionFrom? cs = some (fraction, rest)) :
    ∃ used, cs = used ++ rest ∧ FractionSpelled fraction used := by
  unfold fractionFrom? at h
  split at h
  · rename_i after
    split at h
    · simp at h
    · rename_i hnil
      obtain ⟨rfl, rfl⟩ := Prod.mk.inj (Option.some.inj h)
      refine ⟨'.' :: after.takeWhile Char.isDigit, ?_, .digits (digits_takeWhile hnil)⟩
      rw [List.cons_append, List.takeWhile_append_dropWhile]
  · obtain ⟨rfl, rfl⟩ := Prod.mk.inj (Option.some.inj h)
    exact ⟨[], rfl, .none⟩

theorem exists_of_takeSign (cs : List Char) :
    ∃ sign, cs = sign ++ (Eligibility.Numeral.takeSign cs).2 ∧
      SignSpelled (Eligibility.Numeral.takeSign cs).1 sign := by
  unfold Eligibility.Numeral.takeSign
  split
  · exact ⟨_, rfl, .minus⟩
  · exact ⟨_, rfl, .plus⟩
  · exact ⟨_, rfl, .none⟩

theorem exists_of_exponentFrom?
    {exponent : Option Int} {cs rest : List Char}
    (h : exponentFrom? cs = some (exponent, rest)) :
    ∃ used, cs = used ++ rest ∧ ExponentSpelled exponent used := by
  unfold exponentFrom? at h
  split at h
  · obtain ⟨rfl, rfl⟩ := Prod.mk.inj (Option.some.inj h)
    exact ⟨[], rfl, .none⟩
  · rename_i mark after
    obtain ⟨sign, hafter, hsign⟩ := exists_of_takeSign after
    simp only at h
    split at h
    · rename_i hmark
      split at h
      · simp at h
      · rename_i hnil
        obtain ⟨rfl, rfl⟩ := Prod.mk.inj (Option.some.inj h)
        refine ⟨_, ?_, .digits hmark hsign (digits_takeWhile hnil)⟩
        rw [List.cons_append, List.append_assoc, List.takeWhile_append_dropWhile, ← hafter]
    · obtain ⟨rfl, rfl⟩ := Prod.mk.inj (Option.some.inj h)
      exact ⟨[], rfl, .none⟩

/-- What is split off as a numeral is one of its spellings. -/
theorem exists_spelled_of_from?
    {n : Numeral} {cs rest : List Char}
    (h : from? cs = some (n, rest)) :
    ∃ used, cs = used ++ rest ∧ n.Spelled used := by
  unfold from? at h
  simp only at h
  split at h
  · simp at h
  · rename_i hwhole
    split at h
    · simp at h
    · rename_i hfraction
      split at h
      · simp at h
      · rename_i hexponent
        obtain ⟨rfl, rfl⟩ := Prod.mk.inj (Option.some.inj h)
        obtain ⟨whole, hcs, hdigits, hzero, rfl⟩ := exists_of_wholeFrom? hwhole
        obtain ⟨fractionText, rfl, hfraction'⟩ := exists_of_fractionFrom? hfraction
        obtain ⟨exponentText, rfl, hexponent'⟩ := exists_of_exponentFrom? hexponent
        refine ⟨_, ?_, .mk hdigits hzero hfraction' hexponent'⟩
        rw [List.append_assoc, List.append_assoc, List.append_assoc, ← hcs, append_takeMinus]

/-! ## The characters of a numeral -/

theorem Spelled.ne_nil
    {n : Numeral} {cs : List Char}
    (h : n.Spelled cs) :
    cs ≠ [] := by
  cases h with
  | mk hwhole => simp [hwhole.ne_nil]

/-- A spelled numeral holds digits, signs, a point and the mark of an exponent alone. -/
theorem Spelled.mem
    {n : Numeral} {cs : List Char}
    (h : n.Spelled cs)
    {c : Char} (hc : c ∈ cs) :
    c.isDigit = true ∨ c = '-' ∨ c = '+' ∨ c = '.' ∨ c = 'e' ∨ c = 'E' := by
  cases h with
  | @mk negative whole fraction exponent fractionText exponentText hwhole hzero hfraction hexponent =>
      simp only [List.mem_append] at hc
      rcases hc with hc | hc | hc | hc
      · cases negative <;> simp_all
      · exact .inl (hwhole.isDigit c hc)
      · cases hfraction with
        | none => simp at hc
        | digits h =>
            rcases List.mem_cons.mp hc with rfl | hc
            · simp
            · exact .inl (h.isDigit c hc)
      · cases hexponent with
        | none => simp at hc
        | digits hmark hsign h =>
            rcases List.mem_cons.mp hc with rfl | hc
            · rcases hmark with rfl | rfl <;> simp
            · rcases List.mem_append.mp hc with hc | hc
              · cases hsign <;> simp_all
              · exact .inl (h.isDigit c hc)

end Numeral
end Json
end Eligibility
