import Eligibility.Proofs.Token.Pattern
import Eligibility.Proofs.Token.Places

/-!
# What lenient mode keeps

Loose text is dropped, but it holds no parenthesis, no connective and nothing that any token could
start with.  A parenthesis is a token, unless it stands between the quotes of a condition, and the
word of a connective by itself is a token, unless it stands in a condition.

**Results.**
* `endsWord_or_stops`: a condition is not cut off inside a word;
* `exists_quoted`: a parenthesis in a condition stands between its quotes;
* `not_matches_of_loose`: where a loose character stands, no token could start;
* `lenient_keeps_structure`: all of it for the fragments of a text.
-/

namespace Eligibility
namespace Token

open Text Fragment

/-- A token stands among the fragments right after the given text. -/
def StandsAfter (fs : List Fragment) (earlier : List Char) (t : Token) : Prop :=
  ∃ before after, fs = before ++ .token t :: after ∧ textOf before = earlier

/-- The place after the given text lies between the quotes of a condition. -/
def InQuotes (fs : List Fragment) (earlier : List Char) : Prop :=
  ∃ start text head inner inner' field k,
    StandsAfter fs start (.condition text) ∧
    earlier = start ++ (head ++ '\'' :: inner) ∧
    text.toList = head ++ '\'' :: (inner ++ inner' ++ ['\'']) ∧
    inner' ≠ [] ∧
    Condition.ofText text = .ok ⟨field, k, .text (String.ofList (inner ++ inner'))⟩

/-- A word that stands right after the given text lies in a condition. -/
def InCondition (fs : List Fragment) (earlier word : List Char) : Prop :=
  ∃ start text first second,
    StandsAfter fs start (.condition text) ∧
    earlier = start ++ first ∧
    text.toList = first ++ (word ++ second)

/-- No structure of the text is lost in its loose fragments. -/
structure KeepsStructure (cs : List Char) (fs : List Fragment) : Prop where
  /-- The fragments are the pieces of the text in turn. -/
  textOf_eq : textOf fs = cs
  parenthesis : ∀ t, t = .opening ∨ t = .closing → ∀ earlier later,
    cs = earlier ++ (t.ruleText ++ later) → StandsAfter fs earlier t ∨ InQuotes fs earlier
  connective : ∀ (k : Connective) (earlier later : List Char),
    cs = earlier ++ (k.word.toList ++ later) → endsWord earlier = false →
      startsWord later = false →
      StandsAfter fs earlier (.connective k) ∨ InCondition fs earlier k.word.toList
  loose : ∀ before c after, fs = before ++ .loose c :: after → ∀ p ∈ tokenPatterns,
    ∀ cut rest, c :: textOf after = cut ++ rest → ¬ p.Matches (textOf before) cut rest

/-! ## Parentheses -/

/-- The character can stand in a condition between its quotes, and nowhere else. -/
structure OnlyQuoted (c : Char) : Prop where
  isPlain_eq : Literal.isPlain c = false
  isBlank_eq : isBlank c = false
  isSign_eq : Condition.isSign c = false
  ne_quote : c ≠ '\''

theorem onlyQuoted_opening : OnlyQuoted '(' :=
  ⟨rfl, rfl, rfl, by decide⟩

theorem onlyQuoted_closing : OnlyQuoted ')' :=
  ⟨rfl, rfl, rfl, by decide⟩

theorem exists_onlyQuoted
    {t : Token}
    (ht : t = .opening ∨ t = .closing) :
    ∃ c, t.ruleText = [c] ∧ OnlyQuoted c := by
  rcases ht with rfl | rfl
  · exact ⟨_, rfl, onlyQuoted_opening⟩
  · exact ⟨_, rfl, onlyQuoted_closing⟩

theorem OnlyQuoted.isWord_eq
    {c : Char}
    (h : OnlyQuoted c) :
    isWord c = false := by
  cases hc : isWord c with
  | false => rfl
  | true =>
      have hplain := h.isPlain_eq
      rw [isPlain_of_isWord hc] at hplain
      exact hplain

/-- A place in a condition with such a character lies between the quotes of the condition. -/
theorem exists_quoted
    {cs first second : List Char} {c : Char} {condition : Condition}
    (h : Condition.Spelled cs condition)
    (hplace : cs = first ++ c :: second)
    (hc : OnlyQuoted c) :
    ∃ head inner inner',
      first = head ++ '\'' :: inner ∧
      cs = head ++ '\'' :: (inner ++ c :: inner' ++ ['\'']) ∧
      condition.literal = .text (String.ofList (inner ++ c :: inner')) := by
  cases h with
  | @intro field before after operand k l hne hfield hbefore hafter hoperand =>
      obtain ⟨sign, hk, hsign, -⟩ := Condition.exists_symbol k
      rw [hk, List.singleton_append] at hplace ⊢
      -- the place lies in the operand
      have hlead : c ∉ field ++ (before ++ sign :: after) := by
        simp only [List.mem_append, List.mem_cons, not_or]
        refine ⟨fun h => ?_, fun h => ?_, ?_, fun h => ?_⟩
        · exact absurd (hfield c h) (by simp [hc.isWord_eq])
        · exact absurd (hbefore c h) (by simp [hc.isBlank_eq])
        · rintro rfl
          exact absurd hsign (by simp [hc.isSign_eq])
        · exact absurd (hafter c h) (by simp [hc.isBlank_eq])
      have hsplit : field ++ (before ++ sign :: (after ++ operand)) =
          (field ++ (before ++ sign :: after)) ++ operand := by
        simp
      rw [hsplit] at hplace
      obtain ⟨more, rfl, hmore⟩ := append_eq_append_cons_of_not_mem hplace hlead
      cases hoperand with
      | bare _ hplain =>
          have hcplain := hplain c (by simp [hmore])
          exact absurd hcplain (by simp [hc.isPlain_eq])
      | @quoted cs hquote =>
          cases more with
          | nil => exact absurd (List.cons.inj hmore).1.symm hc.ne_quote
          | cons quote inner =>
              obtain ⟨rfl, hinner⟩ := List.cons.inj hmore
              rcases append_eq_append_cons hinner with ⟨inner', rfl, -⟩ | ⟨tail, -, htail⟩
              · exact ⟨field ++ (before ++ sign :: after), inner, inner', rfl, by simp, rfl⟩
              · have hmem : c ∈ ['\''] := by simp [htail]
                exact absurd (List.mem_singleton.mp hmem) hc.ne_quote

theorem eq_of_singleton_eq
    {first second : List Char} {c d : Char}
    (h : [d] = first ++ c :: second) :
    first = [] ∧ d = c ∧ second = [] := by
  cases first with
  | nil => simpa using h
  | cons a first => simp at h

theorem parenthesis_kept
    {t : Token} {fs : List Fragment} {cs earlier later : List Char}
    (hcuts : Cuts cs fs)
    (ht : t = .opening ∨ t = .closing)
    (hplace : cs = earlier ++ (t.ruleText ++ later)) :
    StandsAfter fs earlier t ∨ InQuotes fs earlier := by
  obtain ⟨c, htext, hc⟩ := exists_onlyQuoted ht
  rw [← hcuts.textOf_eq, htext, List.singleton_append] at hplace
  obtain ⟨before, f, after, first, second, rfl, rfl, hf, -⟩ := exists_fragment hplace
  have hplaced := hcuts.placed
  cases hplaced with
  | opening =>
      obtain ⟨rfl, rfl, -⟩ := eq_of_singleton_eq hf
      rcases ht with rfl | rfl
      · exact .inl ⟨before, after, rfl, by simp⟩
      · simp [ruleText] at htext
  | closing =>
      obtain ⟨rfl, rfl, -⟩ := eq_of_singleton_eq hf
      rcases ht with rfl | rfl
      · simp [ruleText] at htext
      · exact .inl ⟨before, after, rfl, by simp⟩
  | condition hne hword hcut =>
      obtain ⟨⟨field, k, l⟩, hspelled⟩ := exists_spelled hne hword hcut
      rw [← String.toList_ofList (l := _ ++ _)] at hspelled
      obtain ⟨head, inner, inner', rfl, htext, rfl⟩ := exists_quoted hspelled hf hc
      exact .inr ⟨textOf before, _, head, inner, c :: inner', field, k, ⟨before, after, rfl, rfl⟩,
        rfl, htext, by simp, Condition.ofText_of_spelled hspelled⟩
  | @connective _ _ k hstop =>
      have hmem : c ∈ k.word.toList := by
        rw [show k.word.toList = first ++ c :: second from hf]
        simp
      exact absurd (k.isWord_word c hmem) (by simp [hc.isWord_eq])
  | letter hword hstop hnone hk =>
      obtain ⟨-, rfl, -⟩ := eq_of_singleton_eq hf
      have hletter := hword _ (List.mem_append_right _ List.mem_cons_self)
      exact absurd hletter (by simp [hc.isWord_eq])
  | loose hopening hclosing hword =>
      obtain ⟨-, rfl, -⟩ := eq_of_singleton_eq hf
      rcases ht with rfl | rfl
      · exact absurd (List.head_eq_of_cons_eq htext).symm hopening
      · exact absurd (List.head_eq_of_cons_eq htext).symm hclosing

/-! ## Connectives -/

/-- A condition is not cut off inside a word. -/
theorem endsWord_or_stops
    {comparison rest : List Char}
    (word : List Char)
    (hcut : comparison? (comparison ++ rest) = some (comparison, rest)) :
    endsWord (word ++ comparison) = false ∨ startsWord rest = false := by
  obtain ⟨before, after, operand, sign, rfl, -, -, -, hoperand⟩ := exists_of_comparison? hcut
  obtain ⟨l, hl, hstop⟩ := spelled_of_operand? hoperand
  cases hl with
  | @quoted cs hquote =>
      have hend : word ++ (before ++ sign :: (after ++ '\'' :: (cs ++ ['\'']))) =
          (word ++ (before ++ sign :: (after ++ '\'' :: cs))) ++ ['\''] := by
        simp
      rw [hend, endsWord_append _ (by simp)]
      exact .inl rfl
  | bare _ hplain =>
      have hquote : '\'' ∉ operand := fun hmem => absurd (hplain _ hmem) (by decide)
      exact .inr (startsWord_of_stops (hstop hquote))

/-- Two words that start at the same place of a text and stop in it are the same. -/
theorem eq_of_append_stops
    {word word' rest rest' : List Char}
    (h : word ++ rest = word' ++ rest')
    (hword : ∀ c ∈ word, isWord c = true)
    (hword' : ∀ c ∈ word', isWord c = true)
    (hstop : Stops isWord rest)
    (hstop' : Stops isWord rest') :
    word = word' := by
  rw [← takeWhile_append_of_stops hword hstop, h, takeWhile_append_of_stops hword' hstop']

/-- Where no word ends, no part of a word has gone before. -/
theorem eq_nil_of_endsWord
    {before first : List Char}
    (h : endsWord (before ++ first) = false)
    (hword : ∀ c ∈ first, isWord c = true) :
    first = [] := by
  by_contra hne
  rw [endsWord_append _ hne, endsWord_of_isWord hne hword] at h
  exact absurd h (by decide)

theorem ofWord?_of_toList
    {word : List Char} {k : Connective}
    (h : word = k.word.toList) :
    Connective.ofWord? (String.ofList word) = some k := by
  rw [h, String.ofList_toList]
  exact Connective.ofWord?_eq_some_iff.mpr rfl

/-- The word of a connective by itself, where a condition stands, lies in it. -/
theorem exists_second
    {word comparison rest first second w later : List Char} {c : Char}
    (hcut : comparison? (comparison ++ rest) = some (comparison, rest))
    (hplace : word ++ comparison = first ++ c :: second)
    (hw : ∀ a ∈ w, isWord a = true)
    (hwhole : w ++ later = c :: second ++ rest) :
    ∃ tail, c :: second = w ++ tail := by
  rcases List.append_eq_append_iff.mp hwhole with ⟨tail, htail, -⟩ | ⟨beyond, rfl, hrest⟩
  · exact ⟨tail, htail⟩
  · cases beyond with
    | nil => exact ⟨[], by simp⟩
    | cons d beyond =>
        -- the word would go on after the condition
        have hend : endsWord (word ++ comparison) = true := by
          rw [hplace, endsWord_append _ (by simp)]
          exact endsWord_of_isWord (by simp) fun a ha => hw a (List.mem_append_left _ ha)
        have hstart : startsWord rest = true := by
          rw [hrest]
          exact hw d (by simp)
        rcases endsWord_or_stops word hcut with h | h
        · simp [hend] at h
        · simp [hstart] at h

theorem connective_kept
    {fs : List Fragment} {cs earlier later : List Char} {k : Connective}
    (hcuts : Cuts cs fs)
    (hplace : cs = earlier ++ (k.word.toList ++ later))
    (hstart : endsWord earlier = false)
    (hend : startsWord later = false) :
    StandsAfter fs earlier (.connective k) ∨ InCondition fs earlier k.word.toList := by
  obtain ⟨c, letters, hletters⟩ := List.exists_cons_of_ne_nil k.word_ne_nil
  have hc : isWord c = true := k.isWord_word c (by simp [hletters])
  have hlater := stops_of_startsWord hend
  rw [← hcuts.textOf_eq, hletters, List.cons_append] at hplace
  obtain ⟨before, f, after, first, second, rfl, rfl, hf, htail⟩ := exists_fragment hplace
  have hwhole : k.word.toList ++ later = c :: second ++ textOf after := by
    rw [hletters, List.cons_append, htail, List.cons_append]
  have hplaced := hcuts.placed
  cases hplaced with
  | opening =>
      obtain ⟨-, rfl, -⟩ := eq_of_singleton_eq hf
      exact absurd hc (by decide)
  | closing =>
      obtain ⟨-, rfl, -⟩ := eq_of_singleton_eq hf
      exact absurd hc (by decide)
  | condition hne hword hcut =>
      rw [Fragment.ruleText, ruleText, String.toList_ofList] at hf
      obtain ⟨tail, hsecond⟩ := exists_second hcut hf k.isWord_word hwhole
      refine .inr ⟨textOf before, _, first, tail, ⟨before, after, rfl, rfl⟩, rfl, ?_⟩
      rw [String.toList_ofList, hf, hsecond]
  | @connective _ _ k' hstop =>
      have hk' : k'.word.toList = first ++ c :: second := hf
      obtain rfl := eq_nil_of_endsWord hstart fun a ha => k'.isWord_word a (by simp [hk', ha])
      rw [List.nil_append] at hk'
      rw [← hk'] at hwhole
      have hsame := eq_of_append_stops hwhole k.isWord_word k'.isWord_word hlater hstop
      obtain rfl : k = k' := Option.some.inj <|
        (ofWord?_of_toList rfl).symm.trans (ofWord?_of_toList hsame)
      exact .inl ⟨before, after, rfl, by simp⟩
  | @letter before after letters more _ hword hstop hnone hk =>
      obtain ⟨rfl, rfl, rfl⟩ := eq_of_singleton_eq hf
      rw [textOf_append, textOf_loose, List.append_nil] at hstart
      obtain rfl := eq_nil_of_endsWord hstart fun a ha => hword a (List.mem_append_left _ ha)
      rw [textOf_append, textOf_loose, ← List.append_assoc] at hwhole
      have hsame := eq_of_append_stops hwhole k.isWord_word (by simpa using hword) hlater hstop
      rw [ofWord?_of_toList (k := k) (by simpa using hsame.symm)] at hk
      simp at hk
  | loose hopening hclosing hword =>
      obtain ⟨-, rfl, -⟩ := eq_of_singleton_eq hf
      exact absurd hc (by simp [hword])

/-! ## Loose text -/

/-- A match of a token is one of a condition or of a connective, or it is a parenthesis. -/
theorem matches_token_cases
    {p : Pattern} {earlier cut rest : List Char}
    (hp : p ∈ tokenPatterns)
    (h : p.Matches earlier cut rest) :
    conditionPattern.Matches earlier cut rest ∨
      (∃ k, (connectivePattern k).Matches earlier cut rest) ∨ cut = ['('] ∨ cut = [')'] := by
  simp only [tokenPatterns, List.mem_cons, List.not_mem_nil, or_false] at hp
  rcases hp with rfl | rfl | rfl | rfl | rfl
  · exact .inl h
  · exact .inr (.inl ⟨_, h⟩)
  · exact .inr (.inl ⟨_, h⟩)
  · obtain ⟨c, rfl, hc⟩ := h
    exact .inr (.inr (.inl (by rw [eq_of_beq hc])))
  · obtain ⟨c, rfl, hc⟩ := h
    exact .inr (.inr (.inr (by rw [eq_of_beq hc])))

/-- A match starts with a word character or is a parenthesis. -/
theorem head_of_matches
    {p : Pattern} {earlier cut rest more : List Char} {c : Char}
    (hp : p ∈ tokenPatterns)
    (h : p.Matches earlier cut rest)
    (hplace : c :: more = cut ++ rest) :
    isWord c = true ∨ c = '(' ∨ c = ')' := by
  have hfirst {word tail : List Char} (hne : word ≠ []) (hword : ∀ a ∈ word, isWord a = true)
      (heq : c :: more = word ++ tail) : isWord c = true := by
    cases word with
    | nil => exact absurd rfl hne
    | cons a word =>
        obtain ⟨rfl, -⟩ := List.cons.inj heq
        exact hword c (by simp)
  rcases matches_token_cases hp h with h | ⟨k, h⟩ | rfl | rfl
  · obtain ⟨field, tail, heq, hne, hword, -⟩ := exists_comparison?_of_matches h
    exact .inl (hfirst hne hword (hplace.trans heq))
  · obtain ⟨rfl, -⟩ := matches_connectivePattern_iff.mp h
    exact .inl (hfirst k.word_ne_nil k.isWord_word hplace)
  · exact .inr (.inl (List.cons.inj hplace).1)
  · exact .inr (.inr (List.cons.inj hplace).1)

/-- Where a loose character stands, no token could start. -/
theorem not_matches_of_loose
    {before after : List Fragment} {c : Char} {p : Pattern} {cut rest : List Char}
    (hplaced : Placed before (.loose c) after)
    (hp : p ∈ tokenPatterns)
    (hplace : c :: textOf after = cut ++ rest) :
    ¬ p.Matches (textOf before) cut rest := by
  intro h
  cases hplaced with
  | loose hopening hclosing hword =>
      rcases head_of_matches hp h hplace with hc | hc | hc
      · simp [hword] at hc
      · exact hopening hc
      · exact hclosing hc
  | @letter before after letters more _ hword hstop hnone hk =>
      have hcmore : ∀ a ∈ c :: more, isWord a = true := fun a ha =>
        hword a (List.mem_append_right _ ha)
      have hc : isWord c = true := hcmore c (by simp)
      rw [textOf_append, textOf_loose, ← List.cons_append] at hplace
      rcases matches_token_cases hp h with h | ⟨k, h⟩ | rfl | rfl
      · obtain ⟨field, tail, heq, hne, hfield, htail, hfound⟩ := exists_comparison?_of_matches h
        rw [heq] at hplace
        obtain rfl := eq_of_append_stops hplace hcmore hfield hstop htail
        rw [List.append_cancel_left hplace] at hnone
        exact hfound hnone
      · obtain ⟨rfl, hstart, hend⟩ := matches_connectivePattern_iff.mp h
        rw [textOf_append, textOf_loose] at hstart
        obtain rfl := eq_nil_of_endsWord hstart fun a ha => hword a (List.mem_append_left _ ha)
        have hsame := eq_of_append_stops hplace hcmore k.isWord_word hstop
          (stops_of_startsWord hend)
        rw [ofWord?_of_toList (k := k) (by simpa using hsame)] at hk
        simp at hk
      · obtain ⟨rfl, -⟩ := List.cons.inj hplace
        exact absurd hc (by decide)
      · obtain ⟨rfl, -⟩ := List.cons.inj hplace
        exact absurd hc (by decide)

/-- **Lenient mode keeps the structure of a text.**  Its tokens are pieces of the text in turn.  Each
parenthesis is one of them or stands between the quotes of a condition, each connective by itself
is one of them or stands in a condition, and where text is dropped no token could start. -/
theorem lenient_keeps_structure (s : String) :
    KeepsStructure s.toList (fragments s) ∧
      ∀ ts, ofText false s = .ok ts ↔
        (fragments s).filterMap Fragment.token? = ts ∧ ts ≠ [] := by
  have hcuts : Cuts s.toList (fragments s) := cuts_cut _
  refine ⟨⟨hcuts.textOf_eq, ?_, ?_, ?_⟩, ?_⟩
  · intro t ht earlier later hplace
    exact parenthesis_kept hcuts ht hplace
  · intro k earlier later hplace hstart hend
    exact connective_kept hcuts hplace hstart hend
  · intro before c after hfs p hp cut rest hplace
    rw [hfs] at hcuts
    exact not_matches_of_loose hcuts.placed hp hplace
  · intro ts
    rw [ofText_eq_ok_iff]
    constructor
    · rintro ⟨fs, hfs, -, rfl, hne⟩
      rw [fragments, hfs.cut_eq]
      exact ⟨rfl, hne⟩
    · rintro ⟨rfl, hne⟩
      exact ⟨fragments s, hcuts, by simp, rfl, hne⟩

/-- The second condition has a quote that is not closed and is dropped; the quotation before it is
kept. -/
theorem lenient_keeps_structure_unclosed_quote :
    (fragments "(x='(AND)' y=' OR b>1)").filterMap Fragment.token? =
        [.opening, .condition "x='(AND)'", .connective .or, .condition "b>1", .closing] ∧
      ofText false "(x='(AND)' y=' OR b>1)" =
        .ok [.opening, .condition "x='(AND)'", .connective .or, .condition "b>1", .closing] ∧
    (StandsAfter (fragments "(x='(AND)' y=' OR b>1)") "(x='".toList .opening ∨
      InQuotes (fragments "(x='(AND)' y=' OR b>1)") "(x='".toList) ∧
    (StandsAfter (fragments "(x='(AND)' y=' OR b>1)") "(x='(".toList (.connective .and) ∨
      InCondition (fragments "(x='(AND)' y=' OR b>1)") "(x='(".toList "AND".toList) ∧
    ∀ cut rest, "y=' OR b>1)".toList = cut ++ rest →
      ¬ conditionPattern.Matches "(x='(AND)' ".toList cut rest := by
  obtain ⟨hkeeps, hread⟩ := lenient_keeps_structure "(x='(AND)' y=' OR b>1)"
  have htokens : (fragments "(x='(AND)' y=' OR b>1)").filterMap Fragment.token? =
      [.opening, .condition "x='(AND)'", .connective .or, .condition "b>1", .closing] := by
    decide +kernel
  have hfragments : fragments "(x='(AND)' y=' OR b>1)" =
      [.token .opening, .token (.condition "x='(AND)'"), .loose ' '] ++
        .loose 'y' :: ("=' ".toList.map .loose ++
          [.token (.connective .or), .loose ' ', .token (.condition "b>1"), .token .closing]) := by
    decide +kernel
  refine ⟨htokens, (hread _).mpr ⟨htokens, by simp⟩, ?_, ?_, ?_⟩
  · exact hkeeps.parenthesis .opening (.inl rfl) _ "AND)' y=' OR b>1)".toList (by decide)
  · exact hkeeps.connective .and _ ")' y=' OR b>1)".toList (by decide) rfl rfl
  · exact hkeeps.loose _ 'y' _ hfragments conditionPattern List.mem_cons_self

end Token
end Eligibility
