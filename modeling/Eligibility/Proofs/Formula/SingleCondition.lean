import Eligibility.Proofs.Condition.Reading
import Eligibility.Proofs.Infix.Placement
import Eligibility.Proofs.Token.Reading

/-!
# Texts that are one condition

A text that is a condition may also be a rule.  The operand of a condition alone reaches to the end
of the text, but in a rule it ends where a number or a word ends, so a rule may read less of it.
What it leaves unread is white space, stray text or a parenthesis.

**Results.**
* `exists_comparison?_eq_some`: in a rule without stray text, the sign of a condition is part of it;
* `ofText_condition`: the tokens of a text that is a condition, if no text is stray;
* `leaf_of_condition_text`: the rule is the condition, unless stray text is dropped or its tokens
  stand misplaced.
-/

namespace Eligibility

open Text

namespace Token

/-- Between tokens with only white space loose, a sign after a word makes a condition of it. -/
theorem exists_comparison?_eq_some
    {word tail : List Char}
    (hne : word ≠ [])
    (hword : ∀ c ∈ word, isWord c = true)
    (hstop : Stops isWord tail)
    (hsign : ¬ Stops isSign (tail.dropWhile isBlank))
    (hblank : ∀ c, .loose c ∈ cut [] (word ++ tail) → isBlank c = true) :
    ∃ comparison rest, comparison? tail = some (comparison, rest) := by
  cases hnone : comparison? tail with
  | some found => exact ⟨_, _, rfl⟩
  | none =>
      rw [cut_word_append hne hword hstop hnone] at hblank
      cases hk : Connective.ofWord? (String.ofList word) with
      | some k =>
          refine absurd ((cuts_cut tail).stops_isSign fun c hc => hblank c ?_) hsign
          rw [hk]
          exact List.mem_cons_of_mem _ hc
      | none =>
          rw [hk] at hblank
          exact absurd hblank (not_blank_of_loose_word hne hword)

/-- Where neither a word nor loose text goes on, a parenthesis does. -/
theorem exists_parenthesis
    {rest : List Char}
    (hne : rest ≠ [])
    (hword : Stops isWord rest)
    (hstop : Stops isBlank rest)
    (hblank : ∀ c, .loose c ∈ cut [] rest → isBlank c = true) :
    ∃ fs, cut [] rest = .token .opening :: fs ∨ cut [] rest = .token .closing :: fs := by
  cases rest with
  | nil => exact absurd rfl hne
  | cons c rest =>
      by_cases hopening : c = '('
      · rw [hopening]
        exact ⟨_, .inl (cut_opening rest)⟩
      by_cases hclosing : c = ')'
      · rw [hclosing]
        exact ⟨_, .inr (cut_closing rest)⟩
      have hcut := cut_loose hopening hclosing hword rest
      have hc := hblank c (by simp [hcut])
      rw [stops_cons.mp hstop] at hc
      exact absurd hc Bool.false_ne_true

/-- What a rule reads of a condition is all of it, or the text goes on where no word does. -/
theorem spelled_or_stops
    {s : String} {c : Condition} {lead field comparison rest : List Char}
    (hc : Condition.ofText s = .ok c)
    (hs : s.toList = lead ++ (field ++ (comparison ++ rest)))
    (hlead : ∀ a ∈ lead, isBlank a = true)
    (hne : field ≠ [])
    (hfield : ∀ a ∈ field, isWord a = true)
    (hcut : comparison? (comparison ++ rest) = some (comparison, rest)) :
    (Condition.Spelled (field ++ comparison) c ∧ ∀ a ∈ rest, isBlank a = true) ∨
      (rest ≠ [] ∧ Stops isWord rest ∧ Stops isBlank rest) := by
  obtain ⟨before, after, operand, sign, rfl, hbefore, hafter, hsign, hoperand⟩ :=
    exists_of_comparison? hcut
  obtain ⟨k, hk⟩ := exists_comparator hsign
  obtain ⟨l, hl, hstop⟩ := spelled_of_operand? hoperand
  obtain ⟨a, tail, hhead, hblank, hisSign⟩ := Condition.exists_head_of_spelled hl
  have hparts : s.toList =
      lead ++ (field ++ (before ++ (k.symbol.toList ++ (after ++ (operand ++ rest))))) := by
    rw [hs, hk]
    simp
  rw [Condition.ofText_parts hparts hlead hne hfield hbefore hafter (by simp [hhead])
    (by simpa [hhead] using hblank) (by simpa [hhead] using hisSign)] at hc
  cases hread : Condition.operand? (operand ++ rest) with
  | none => simp [hread] at hc
  | some l' =>
      simp only [hread, Except.ok.injEq] at hc
      rcases Condition.spelled_or_goes_on hl hread with ⟨rfl, hrest⟩ | ⟨hquote, hrest, hstart⟩
      · have hspelled := Condition.Spelled.intro (k := k) hne hfield hbefore hafter hl
        rw [hk, hc] at hspelled
        exact .inl ⟨hspelled, hrest⟩
      · exact .inr ⟨hrest, hstop hquote, hstart⟩

/-- If no text is stray, the first token of a condition is a condition.  It is the same and the only
one, or a parenthesis follows. -/
theorem ofText_condition
    {s : String} {c : Condition} {ts : List Token}
    (hc : Condition.ofText s = .ok c)
    (hts : ofText true s = .ok ts) :
    ∃ text more, ts = .condition text :: more ∧
      ((more = [] ∧ Condition.ofText text = .ok c) ∨
        ∃ rest, more = .opening :: rest ∨ more = .closing :: rest) := by
  obtain ⟨lead, field, tail, more, hs, hlead, hne, hfield, hstop, htail⟩ :=
    Condition.exists_of_ofText hc
  obtain ⟨fs, hcuts, hblank, rfl, -⟩ := ofText_eq_ok_iff.mp hts
  have hblank := hblank rfl
  obtain rfl : lead.map .loose ++ cut [] (field ++ tail) = fs := by
    rw [← cut_blanks_append hlead, ← hs]
    exact hcuts.cut_eq
  have hsign : ¬ Stops isSign (tail.dropWhile isBlank) := by
    rw [htail]
    cases c.comparator <;> simp [Comparator.symbol, isSign]
  have hblank' : ∀ a, .loose a ∈ cut [] (field ++ tail) → isBlank a = true := fun a ha =>
    hblank a (List.mem_append_right _ ha)
  obtain ⟨comparison, rest, hcut⟩ := exists_comparison?_eq_some hne hfield hstop hsign hblank'
  obtain rfl := append_of_comparison? hcut
  rw [cut_condition_append hne hfield hcut] at hblank'
  rw [cut_condition_append hne hfield hcut, List.filterMap_append,
    Fragment.filterMap_token?_loose]
  refine ⟨_, (cut [] rest).filterMap Fragment.token?, rfl, ?_⟩
  rcases spelled_or_stops hc hs hlead hne hfield hcut with
    ⟨hspelled, hrest⟩ | ⟨hrest, hword, hstart⟩
  · have hloose := cut_blanks_append hrest []
    rw [List.append_nil, Cuts.nil.cut_eq, List.append_nil] at hloose
    refine .inl ⟨?_, Condition.ofText_of_spelled (by rwa [String.toList_ofList])⟩
    rw [hloose, Fragment.filterMap_token?_loose]
  · obtain ⟨fs, hfs⟩ := exists_parenthesis hrest hword hstart fun a ha =>
      hblank' a (List.mem_cons_of_mem _ ha)
    refine .inr ⟨fs.filterMap Fragment.token?, ?_⟩
    rcases hfs with hfs | hfs
    · exact .inl (by rw [hfs]; rfl)
    · exact .inr (by rw [hfs]; rfl)

end Token

namespace Formula

open Phrase Token

theorem ofTokens_condition
    {text : String} {c : Condition}
    (h : Condition.ofText text = .ok c) :
    ofTokens [.condition text] = .ok (leaf c) := by
  have hspells : Spells expression [.condition text] (leaf c) := .single (.single (.condition h))
  rw [ofTokens_of_spells hspells, depth_leaf, if_pos (by decide)]

/-- A parenthesis cannot close where none is open. -/
theorem ofTokens_condition_closing
    (text : String) (more : List Token) (f : Formula) :
    ofTokens (.condition text :: .closing :: more) ≠ .ok f := by
  cases h : Condition.ofText text with
  | error fault => simp [ofTokens, pushAll, push, h]
  | ok c => simp [ofTokens, pushAll, push, h, closeGroup]

theorem not_wellPlaced_condition_opening
    (text : String) (more : List Token) :
    ¬ WellPlaced (.condition text :: .opening :: more) := by
  simp [WellPlaced, fits, endsOperand, startsOperand]

/-- **A condition as a rule.**  A text that is a condition and that is read as a rule is read as
that condition, unless stray text is dropped from it or its tokens stand misplaced. -/
theorem leaf_of_condition_text
    {strict : Bool} {s : String} {c : Condition} {f : Formula}
    (hc : Condition.ofText s = .ok c)
    (hf : ofText strict s = .ok f) :
    f = leaf c ∨
      (strict = false ∧ ∃ text, Token.ofText true s = .error (.strayText text)) ∨
      ∃ ts, Token.ofText true s = .ok ts ∧ ¬ WellPlaced ts := by
  obtain ⟨ts, htokens, hread⟩ := ofText_eq_ok_iff.mp hf
  rcases strict_or_stray htokens with hstrict | hstray
  · obtain ⟨text, more, rfl, ⟨rfl, htext⟩ | ⟨rest, rfl | rfl⟩⟩ := ofText_condition hc hstrict
    · rw [ofTokens_condition htext, Except.ok.injEq] at hread
      exact .inl hread.symm
    · exact .inr (.inr ⟨_, hstrict, not_wellPlaced_condition_opening text rest⟩)
    · exact absurd hread (ofTokens_condition_closing text rest f)
  · exact .inr (.inl hstray)

/-- White space on all sides of the sign, around a field that is the word of a connective. -/
theorem leaf_of_condition_text_spaced :
    Condition.ofText " AND=  -2.50 " = .ok ⟨"AND", .equal, .number ⟨0xC004000000000000⟩⟩ ∧
    ofText true " AND=  -2.50 " = .ok (leaf ⟨"AND", .equal, .number ⟨0xC004000000000000⟩⟩) ∧
    (leaf ⟨"AND", .equal, .number ⟨0xC004000000000000⟩⟩ =
        leaf ⟨"AND", .equal, .number ⟨0xC004000000000000⟩⟩ ∨
      (true = false ∧ ∃ text, Token.ofText true " AND=  -2.50 " = .error (.strayText text)) ∨
      ∃ ts, Token.ofText true " AND=  -2.50 " = .ok ts ∧ ¬ WellPlaced ts) := by
  have hc : Condition.ofText " AND=  -2.50 " =
      .ok ⟨"AND", .equal, .number ⟨0xC004000000000000⟩⟩ := by
    decide +kernel
  have hf : ofText true " AND=  -2.50 " =
      .ok (leaf ⟨"AND", .equal, .number ⟨0xC004000000000000⟩⟩) := by
    decide +kernel
  exact ⟨hc, hf, leaf_of_condition_text hc hf⟩

/-- Conditions of which a rule reads another one where stray text is dropped: a number with an
exponent is cut short, and of an operand in parentheses only what is inside is read. -/
theorem ofText_reads_other_condition :
    (Condition.ofText "a = 1e-5" = .ok ⟨"a", .equal, .number ⟨0x3EE4F8B588E368F1⟩⟩ ∧
      ofText false "a = 1e-5" = .ok (leaf ⟨"a", .equal, .text "1e"⟩)) ∧
    (Condition.ofText "a = (b=c)" = .ok ⟨"a", .equal, .text "(b=c)"⟩ ∧
      ofText false "a = (b=c)" = .ok (leaf ⟨"b", .equal, .text "c"⟩)) ∧
    ¬ ∀ strict s c f, Condition.ofText s = .ok c → ofText strict s = .ok f → f = leaf c := by
  have hc : Condition.ofText "a = 1e-5" = .ok ⟨"a", .equal, .number ⟨0x3EE4F8B588E368F1⟩⟩ := by
    decide +kernel
  have hf : ofText false "a = 1e-5" = .ok (leaf ⟨"a", .equal, .text "1e"⟩) := by
    decide +kernel
  refine ⟨⟨hc, hf⟩, ⟨by decide +kernel, by decide +kernel⟩, ?_⟩
  intro h
  simpa using h _ _ _ _ hc hf

end Formula
end Eligibility
