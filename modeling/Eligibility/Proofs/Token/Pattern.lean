import Eligibility.Proofs.Token.Scan

/-!
# The patterns of tokens

Patterns describe pieces of a text, one after another, one or the other, and with word boundaries
between them.  `tokenPatterns` are those of the tokens: a condition, the word of a connective by
itself, a parenthesis.  What a pattern matches may be cut off in several ways; the scanner cuts it
off in one of them, so that a match shows at least that the scanner finds something.

**Results.**
* `isSome_operand?_of_matches`: where the pattern of operands matches, an operand is cut off;
* `exists_comparison?_of_matches`: where the pattern of conditions matches, a word stands that has a
  comparison after it;
* `matches_connectivePattern_iff`: the pattern of a connective matches its word by itself.
-/

namespace Eligibility
namespace Token

open Text

/-- Whether a text ends in a word character. -/
def endsWord (cs : List Char) : Bool :=
  startsWord cs.reverse

/-- A pattern of a piece of text. -/
inductive Pattern
  | empty
  /-- One character of a class. -/
  | one (p : Char → Bool)
  /-- Any number of characters of a class. -/
  | many (p : Char → Bool)
  /-- A place with a word character on one side and none on the other. -/
  | boundary
  | seq (first second : Pattern)
  | either (first second : Pattern)

namespace Pattern

/-- Whether the pattern matches a piece of text that stands between two others. -/
def Matches : Pattern → List Char → List Char → List Char → Prop
  | empty, _, cut, _ => cut = []
  | one p, _, cut, _ => ∃ c, cut = [c] ∧ p c = true
  | many p, _, cut, _ => ∀ c ∈ cut, p c = true
  | boundary, earlier, cut, rest => cut = [] ∧ endsWord earlier ≠ startsWord rest
  | seq first second, earlier, cut, rest =>
    ∃ x y, cut = x ++ y ∧ first.Matches earlier x (y ++ rest) ∧ second.Matches (earlier ++ x) y rest
  | either first second, earlier, cut, rest =>
    first.Matches earlier cut rest ∨ second.Matches earlier cut rest

/-- At least one character of a class. -/
def several (p : Char → Bool) : Pattern :=
  seq (one p) (many p)

/-- What the pattern matches, or nothing. -/
def optional (p : Pattern) : Pattern :=
  either p empty

/-- A given text. -/
def literal : List Char → Pattern
  | [] => empty
  | c :: cs => seq (one (· == c)) (literal cs)

theorem matches_several_iff
    {p : Char → Bool} {earlier cut rest : List Char} :
    (several p).Matches earlier cut rest ↔ cut ≠ [] ∧ ∀ c ∈ cut, p c = true := by
  constructor
  · rintro ⟨x, y, rfl, ⟨c, rfl, hc⟩, hmany⟩
    exact ⟨by simp, List.forall_mem_cons.mpr ⟨hc, hmany⟩⟩
  · rintro ⟨hne, hall⟩
    cases cut with
    | nil => exact absurd rfl hne
    | cons c cs =>
        obtain ⟨hc, hcs⟩ := List.forall_mem_cons.mp hall
        exact ⟨[c], cs, rfl, ⟨c, rfl, hc⟩, hcs⟩

theorem matches_literal_iff
    {word earlier cut rest : List Char} :
    (literal word).Matches earlier cut rest ↔ cut = word := by
  induction word generalizing earlier cut with
  | nil => exact Iff.rfl
  | cons c word ih =>
      constructor
      · rintro ⟨x, y, rfl, ⟨a, rfl, ha⟩, hmore⟩
        rw [ih.mp hmore, eq_of_beq ha]
        rfl
      · rintro rfl
        exact ⟨[c], word, rfl, ⟨c, rfl, beq_self_eq_true c⟩, ih.mpr rfl⟩

end Pattern

open Pattern

/-- A text between single quotes. -/
def quotationPattern : Pattern :=
  seq (one (· == '\'')) (seq (many (· != '\'')) (one (· == '\'')))

/-- An optional minus sign, digits, and optionally a point and digits, up to the end of a word. -/
def numberPattern : Pattern :=
  seq (optional (one (· == '-')))
    (seq (several isDigit) (seq (optional (seq (one (· == '.')) (several isDigit))) boundary))

/-- A quotation, a number or a word. -/
def operandPattern : Pattern :=
  either quotationPattern (either numberPattern (several isWord))

/-- A word, a sign and an operand, with white space or none around the sign. -/
def conditionPattern : Pattern :=
  seq (several isWord) (seq (many isBlank) (seq (one isSign) (seq (many isBlank) operandPattern)))

/-- The word of a connective, by itself. -/
def connectivePattern (k : Connective) : Pattern :=
  seq boundary (seq (literal k.word.toList) boundary)

/-- The patterns of the tokens. -/
def tokenPatterns : List Pattern :=
  [conditionPattern, connectivePattern .and, connectivePattern .or, one (· == '('),
    one (· == ')')]

/-! ## Word boundaries -/

theorem endsWord_append
    (cs : List Char) {ds : List Char}
    (hne : ds ≠ []) :
    endsWord (cs ++ ds) = endsWord ds := by
  rw [endsWord, endsWord, List.reverse_append]
  cases hreverse : ds.reverse with
  | nil => exact absurd (List.reverse_eq_nil_iff.mp hreverse) hne
  | cons c more => rfl

theorem endsWord_of_isWord
    {cs : List Char}
    (hne : cs ≠ [])
    (h : ∀ c ∈ cs, isWord c = true) :
    endsWord cs = true := by
  rw [endsWord]
  cases hreverse : cs.reverse with
  | nil => exact absurd (List.reverse_eq_nil_iff.mp hreverse) hne
  | cons c more =>
      refine h c (List.mem_reverse.mp ?_)
      rw [hreverse]
      exact List.mem_cons_self

theorem startsWord_append_of_isWord
    {cs : List Char} (rest : List Char)
    (hne : cs ≠ [])
    (h : ∀ c ∈ cs, isWord c = true) :
    startsWord (cs ++ rest) = true := by
  cases cs with
  | nil => exact absurd rfl hne
  | cons c more => exact h c (by simp)

/-- The pattern of a connective matches its word where no word character stands beside it. -/
theorem matches_connectivePattern_iff
    {k : Connective} {earlier cut rest : List Char} :
    (connectivePattern k).Matches earlier cut rest ↔
      cut = k.word.toList ∧ endsWord earlier = false ∧ startsWord rest = false := by
  have hstart := startsWord_append_of_isWord rest k.word_ne_nil k.isWord_word
  have hend : endsWord (earlier ++ k.word.toList) = true := by
    rw [endsWord_append _ k.word_ne_nil]
    exact endsWord_of_isWord k.word_ne_nil k.isWord_word
  constructor
  · rintro ⟨_, _, rfl, ⟨rfl, hbefore⟩, _, _, rfl, hword, rfl, hafter⟩
    obtain rfl := matches_literal_iff.mp hword
    rw [List.append_nil, hstart] at hbefore
    rw [List.append_nil, hend] at hafter
    exact ⟨by simp, by simpa using hbefore, by simpa using hafter.symm⟩
  · rintro ⟨rfl, hbefore, hafter⟩
    refine ⟨[], k.word.toList, rfl, ⟨rfl, ?_⟩, k.word.toList, [], by simp,
      matches_literal_iff.mpr rfl, rfl, ?_⟩
    · simp [hstart, hbefore]
    · simp [hend, hafter]

/-! ## Operands that are matched -/

theorem isSome_quotation?_of_matches
    {earlier cut rest : List Char}
    (h : quotationPattern.Matches earlier cut rest) :
    (quotation? (cut ++ rest)).isSome = true := by
  obtain ⟨_, _, rfl, ⟨_, rfl, hopen⟩, inner, _, rfl, hinner, _, rfl, hclose⟩ := h
  have hquote : '\'' ∉ inner := by
    intro hmem
    exact absurd (hinner _ hmem) (by decide)
  rw [eq_of_beq hopen, eq_of_beq hclose]
  simp [quotation?_append hquote rest]

/-- Digits and a fraction or none, where no word goes on. -/
theorem isSome_unsigned?
    {digits fraction rest : List Char}
    (hne : digits ≠ [])
    (hdigits : ∀ c ∈ digits, isDigit c = true)
    (hfraction : fraction = [] ∨ ∃ places, fraction = '.' :: places ∧ places ≠ [] ∧
      ∀ c ∈ places, isDigit c = true)
    (hstop : Stops isWord rest) :
    (unsigned? (digits ++ (fraction ++ rest))).isSome = true := by
  have hrest : Stops isDigit rest := hstop.mono fun _ => isDigit_eq_false_of_isWord
  have hparts : Stops isDigit (fraction ++ rest) := by
    rcases hfraction with rfl | ⟨places, rfl, -, -⟩
    · exact hrest
    · exact rfl
  rw [unsigned?, takeWhile_append_of_stops hdigits hparts, dropWhile_append_of_stops hdigits hparts]
  simp only [if_neg hne]
  rcases hfraction with rfl | ⟨places, rfl, hplaces, hall⟩
  · rw [List.nil_append, startsWord_of_stops hstop]
    cases fraction? rest <;> rfl
  · have hcut : fraction? ('.' :: places ++ rest) = some ('.' :: places, rest) := by
      simp [fraction?, takeWhile_append_of_stops hall hrest, dropWhile_append_of_stops hall hrest,
        hplaces, startsWord_of_stops hstop]
    rw [hcut]
    rfl

theorem isSome_number?_of_matches
    {earlier cut rest : List Char}
    (h : numberPattern.Matches earlier cut rest) :
    (number? (cut ++ rest)).isSome = true := by
  obtain ⟨minus, _, rfl, hminus, digits, _, rfl, hdigits, fraction, _, rfl, hfraction, rfl,
    hboundary⟩ := h
  obtain ⟨hne, hall⟩ := matches_several_iff.mp hdigits
  have hparts : fraction = [] ∨ ∃ places, fraction = '.' :: places ∧ places ≠ [] ∧
      ∀ c ∈ places, isDigit c = true := by
    rcases hfraction with ⟨_, places, rfl, ⟨_, rfl, hpoint⟩, hplaces⟩ | rfl
    · rw [eq_of_beq hpoint]
      exact .inr ⟨places, rfl, matches_several_iff.mp hplaces⟩
    · exact .inl rfl
  have hend : endsWord (earlier ++ minus ++ digits ++ fraction) = true := by
    rcases hparts with rfl | ⟨places, rfl, hplaces, hdigit⟩
    · rw [List.append_nil, endsWord_append _ hne]
      exact endsWord_of_isWord hne fun c hc => isWord_of_isDigit (hall c hc)
    · rw [endsWord_append _ (by simp), ← List.singleton_append, endsWord_append _ hplaces]
      exact endsWord_of_isWord hplaces fun c hc => isWord_of_isDigit (hdigit c hc)
  have hstop : Stops isWord rest := by
    rw [hend] at hboundary
    exact stops_of_startsWord (by simpa using hboundary.symm)
  have hunsigned := isSome_unsigned? hne hall hparts hstop
  rcases hminus with ⟨_, rfl, hsign⟩ | rfl
  · rw [eq_of_beq hsign]
    simpa [number?] using hunsigned
  · cases digits with
    | nil => exact absurd rfl hne
    | cons c more =>
        simp only [List.nil_append, List.append_nil, List.cons_append, List.append_assoc] at *
        have hc : c ≠ '-' := by
          rintro rfl
          exact absurd (hall _ List.mem_cons_self) (by decide)
        rwa [number?_of_ne _ hc]

/-- Where the pattern of operands matches, an operand is cut off, though perhaps another one. -/
theorem isSome_operand?_of_matches
    {earlier cut rest : List Char}
    (h : operandPattern.Matches earlier cut rest) :
    (operand? (cut ++ rest)).isSome = true := by
  rw [operand?, Option.isSome_or, Option.isSome_or]
  rcases h with h | h | h
  · rw [isSome_quotation?_of_matches h]
    rfl
  · rw [isSome_number?_of_matches h]
    simp
  · obtain ⟨hne, hword⟩ := matches_several_iff.mp h
    rw [word?, if_pos (startsWord_append_of_isWord rest hne hword)]
    simp

/-! ## Conditions that are matched -/

/-- Where the pattern of conditions matches, a word stands that has a comparison after it. -/
theorem exists_comparison?_of_matches
    {earlier cut rest : List Char}
    (h : conditionPattern.Matches earlier cut rest) :
    ∃ field tail,
      cut ++ rest = field ++ tail ∧
      field ≠ [] ∧
      (∀ c ∈ field, isWord c = true) ∧
      Stops isWord tail ∧
      comparison? tail ≠ none := by
  obtain ⟨field, _, rfl, hfield, before, _, rfl, hbefore, _, _, rfl, ⟨sign, rfl, hsign⟩, after,
    operand, rfl, hafter, hoperand⟩ := h
  obtain ⟨hne, hword⟩ := matches_several_iff.mp hfield
  obtain ⟨⟨text, more⟩, hcut⟩ := Option.isSome_iff_exists.mp (isSome_operand?_of_matches hoperand)
  have hstart := (stops_isBlank_of_operand? hcut).1
  obtain ⟨hsignBlank, hsignWord⟩ := isBlank_isWord_of_isSign hsign
  have hblank : Stops isBlank (sign :: (after ++ (operand ++ rest))) := hsignBlank
  refine ⟨field, before ++ sign :: (after ++ (operand ++ rest)), by simp, hne, hword,
    Condition.stops_isWord_append hbefore hsignWord, ?_⟩
  rw [comparison?, dropWhile_append_of_stops hbefore hblank]
  simp only [if_pos hsign, dropWhile_append_of_stops hafter hstart, hcut, Option.map_some]
  simp

end Token
end Eligibility
