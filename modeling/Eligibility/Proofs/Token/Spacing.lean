import Eligibility.Proofs.Token.Pattern
import Eligibility.Proofs.Token.Places

/-!
# Tokens with single spaces between them

Where a token ends is decided by looking at what follows: a number gives up its fraction if a word
goes on after it, and a word without a sign after it is no condition.  But a token that has been cut
off is cut off in the same way when nothing follows, and a space changes nothing either.  So a text
may be written anew from its tokens, and nothing is fused, cut short or split by it.

**Results.**
* `operand?_alone`, `comparison?_alone`: what is cut off is cut off as a whole when it stands alone;
* `solid_of_mem_cuts`: a token of a text is cut off before any text that it does not go on with;
* `ofText_singleSpaced`: the tokens of a text, written with single spaces, are its tokens again.
-/

namespace Eligibility
namespace Token

open Text

/-! ## What is cut off, standing alone -/

theorem fraction?_alone
    {cs cut rest : List Char}
    (h : fraction? cs = some (cut, rest)) :
    fraction? cut = some (cut, []) ∧ Stops isDigit cut := by
  unfold fraction? at h
  split at h
  · rename_i tail
    simp only at h
    split at h
    · simp at h
    · rename_i hend
      simp only [Bool.or_eq_true, decide_eq_true_eq, not_or] at hend
      simp only [Option.some.injEq, Prod.mk.injEq] at h
      obtain ⟨rfl, rfl⟩ := h
      have hdigits : ∀ c ∈ tail.takeWhile isDigit, isDigit c = true := fun c =>
        List.mem_takeWhile_imp
      refine ⟨?_, rfl⟩
      rw [fraction?, takeWhile_eq_self hdigits, dropWhile_eq_nil hdigits]
      simp [hend.1, startsWord]
  · simp at h

theorem unsigned?_alone
    {cs cut rest : List Char}
    (h : unsigned? cs = some (cut, rest)) :
    unsigned? cut = some (cut, []) := by
  have hdigits : ∀ c ∈ cs.takeWhile isDigit, isDigit c = true := fun c => List.mem_takeWhile_imp
  unfold unsigned? at h
  simp only at h
  split at h
  · simp at h
  · rename_i hne
    split at h
    · rename_i fraction after hfraction
      simp only [Option.some.injEq, Prod.mk.injEq] at h
      obtain ⟨rfl, rfl⟩ := h
      obtain ⟨halone, hstop⟩ := fraction?_alone hfraction
      rw [unsigned?, takeWhile_append_of_stops hdigits hstop,
        dropWhile_append_of_stops hdigits hstop]
      simp only [if_neg hne, halone]
    · split at h
      · simp at h
      · simp only [Option.some.injEq, Prod.mk.injEq] at h
        obtain ⟨rfl, rfl⟩ := h
        rw [unsigned?, takeWhile_eq_self hdigits, dropWhile_eq_nil hdigits]
        simp [hne, fraction?, startsWord]

theorem number?_alone
    {cs cut rest : List Char}
    (h : number? cs = some (cut, rest)) :
    number? cut = some (cut, []) := by
  unfold number? at h
  split at h
  · obtain ⟨⟨digits, after⟩, hdigits, heq⟩ := Option.map_eq_some_iff.mp h
    obtain ⟨rfl, rfl⟩ := Prod.mk.inj heq
    rw [number?, unsigned?_alone hdigits]
    rfl
  · rename_i hminus
    have hcut := cutBare_of_unsigned? h
    have halone := unsigned?_alone h
    cases cut with
    | nil => exact absurd rfl hcut.ne_nil
    | cons c more =>
        have hc : c ≠ '-' := by
          rintro rfl
          exact hminus (more ++ rest) (append_of_unsigned? h).symm
        rw [number?_of_ne _ hc, halone]

/-- A word that is no number before a text is none when it stands alone. -/
theorem unsigned?_word
    {word rest : List Char}
    (hword : ∀ c ∈ word, isWord c = true)
    (hstop : Stops isWord rest)
    (h : unsigned? (word ++ rest) = none) :
    unsigned? word = none := by
  have hsplit := List.takeWhile_append_dropWhile (p := isDigit) (l := word)
  by_cases hdigits : word.takeWhile isDigit = []
  · rw [unsigned?]
    simp only [if_pos hdigits]
  · cases hafter : word.dropWhile isDigit with
    | nil =>
        -- digits alone would have been a number before the text too
        rw [hafter, List.append_nil] at hsplit
        have hsome := isSome_unsigned? hdigits (fun c => List.mem_takeWhile_imp) (.inl rfl) hstop
        rw [List.nil_append, hsplit, h] at hsome
        simp at hsome
    | cons c more =>
        have hc : isWord c = true := hword c (by rw [← hsplit, hafter]; simp)
        have hpoint : c ≠ '.' := ne_of_isWord hc (by decide)
        rw [unsigned?]
        simp only [hafter, fraction?_of_ne _ hpoint, if_neg hdigits]
        rw [if_pos (show startsWord (c :: more) = true from hc)]

theorem bare_alone
    {cs cut rest : List Char}
    (h : (number? cs).or (word? cs) = some (cut, rest)) :
    (number? cut).or (word? cut) = some (cut, []) := by
  rcases Option.or_eq_some_iff.mp h with hnumber | ⟨hnone, hcut⟩
  · rw [number?_alone hnumber, Option.some_or]
  · unfold word? at hcut
    split at hcut
    · rename_i hstart
      simp only [Option.some.injEq, Prod.mk.injEq] at hcut
      obtain ⟨rfl, rfl⟩ := hcut
      cases cs with
      | nil => simp [startsWord] at hstart
      | cons c more =>
          have hc : isWord c = true := hstart
          have hminus : c ≠ '-' := ne_of_isWord hc (by decide)
          have hword : ∀ a ∈ (c :: more).takeWhile isWord, isWord a = true := fun a =>
            List.mem_takeWhile_imp
          have hfirst : (c :: more).takeWhile isWord = c :: more.takeWhile isWord :=
            List.takeWhile_cons_of_pos hc
          rw [number?_of_ne _ hminus,
            ← List.takeWhile_append_dropWhile (p := isWord) (l := c :: more)] at hnone
          have halone := unsigned?_word hword (stops_dropWhile isWord _) hnone
          rw [hfirst] at halone hword ⊢
          rw [number?_of_ne _ hminus, halone, Option.none_or, word?,
            if_pos (show startsWord (c :: _) = true from hc), takeWhile_eq_self hword,
            dropWhile_eq_nil hword]
    · simp at hcut

theorem operand?_alone
    {cs cut rest : List Char}
    (h : operand? cs = some (cut, rest)) :
    operand? cut = some (cut, []) := by
  rw [operand?, Option.or_eq_some_iff] at h
  rcases h with hquoted | ⟨-, hbare⟩
  · obtain ⟨inner, hinner, rfl⟩ := quoted_of_quotation? hquoted
    rw [operand?, quotation?_append hinner [], Option.some_or]
  · have halone := bare_alone hbare
    cases cut with
    | nil => simp [number?, unsigned?, word?, startsWord] at halone
    | cons c more =>
        rw [operand?, quotation?_of_ne _ (ne_quote_of_bare halone), Option.none_or, halone]

/-- What is cut off as a comparison is cut off as a whole when it stands alone. -/
theorem comparison?_alone
    {cs cut rest : List Char}
    (h : comparison? cs = some (cut, rest)) :
    comparison? cut = some (cut, []) := by
  obtain ⟨before, after, operand, sign, rfl, hbefore, hafter, hsign, hoperand⟩ :=
    exists_of_comparison? h
  exact comparison?_of_operand? hbefore hafter hsign (operand?_alone hoperand)

/-- A comparison is cut off in the same way before any text that parts from it. -/
theorem comparison?_of_parts
    {cut rest more : List Char}
    (h : comparison? (cut ++ rest) = some (cut, rest))
    (hmore : Parts more) :
    comparison? (cut ++ more) = some (cut, more) := by
  simpa using comparison?_append (comparison?_alone h) hmore

/-! ## Tokens before other texts -/

/-- The token is cut off before any text that parts from it and goes on with no comparison. -/
def Solid (t : Token) : Prop :=
  ∀ {rest : List Char} {fs : List Fragment},
    Parts rest →
    comparison? rest = none →
    Cuts rest fs →
    Cuts (t.ruleText ++ rest) (.token t :: fs)

theorem solid_condition
    {word comparison rest : List Char}
    (hne : word ≠ [])
    (hword : ∀ c ∈ word, isWord c = true)
    (hcut : comparison? (comparison ++ rest) = some (comparison, rest)) :
    Solid (.condition (String.ofList (word ++ comparison))) := by
  intro tail fs htail _ hmore
  rw [ruleText, String.toList_ofList, List.append_assoc]
  exact .condition hne hword (comparison?_of_parts hcut htail) hmore

/-- A token of a text is cut off before any text that it does not go on with. -/
theorem solid_of_mem_cuts
    {cs : List Char} {fs : List Fragment} {t : Token}
    (h : Cuts cs fs)
    (hmem : .token t ∈ fs) :
    Solid t := by
  obtain ⟨before, after, rfl⟩ := List.append_of_mem hmem
  cases h.placed with
  | opening => exact fun _ _ hmore => .opening hmore
  | closing => exact fun _ _ hmore => .closing hmore
  | condition hne hword hcut => exact solid_condition hne hword hcut
  | connective => exact fun hrest hnone hmore => .connective hrest.stops_isWord hnone hmore

/-! ## Single spaces -/

/-- The tokens as a rule spells them, with single spaces between them. -/
def singleSpaced (ts : List Token) : String :=
  " ".intercalate (ts.map fun t => String.ofList t.ruleText)

/-- The fragments of tokens with single spaces between them. -/
def spacedFragments (ts : List Token) : List Fragment :=
  (ts.map Fragment.token).intersperse (.loose ' ')

theorem spacedFragments_cons_cons
    (t u : Token) (ts : List Token) :
    spacedFragments (t :: u :: ts) = .token t :: .loose ' ' :: spacedFragments (u :: ts) := rfl

theorem toList_singleSpaced_cons_cons
    (t u : Token) (ts : List Token) :
    (singleSpaced (t :: u :: ts)).toList =
      t.ruleText ++ ' ' :: (singleSpaced (u :: ts)).toList := by
  simp [singleSpaced]

theorem isBlank_of_mem_spacedFragments
    {ts : List Token} {c : Char}
    (h : .loose c ∈ spacedFragments ts) :
    isBlank c = true := by
  match ts with
  | [] => simp [spacedFragments] at h
  | [t] => simp [spacedFragments] at h
  | t :: u :: ts =>
      simp only [spacedFragments_cons_cons, List.mem_cons, reduceCtorEq, Fragment.loose.injEq,
        false_or] at h
      rcases h with rfl | h
      · rfl
      · exact isBlank_of_mem_spacedFragments h

theorem filterMap_spacedFragments (ts : List Token) :
    (spacedFragments ts).filterMap Fragment.token? = ts := by
  match ts with
  | [] => rfl
  | [t] => rfl
  | t :: u :: ts =>
      have ih := filterMap_spacedFragments (u :: ts)
      simp [spacedFragments_cons_cons, List.filterMap_cons, Fragment.token?, ih]

theorem cuts_singleSpaced
    {ts : List Token}
    (h : ∀ t ∈ ts, Solid t) :
    Cuts (singleSpaced ts).toList (spacedFragments ts) := by
  match ts with
  | [] => exact .nil
  | [t] =>
      have hparts : Parts [] := trivial
      have hcut := h t (by simp) hparts rfl .nil
      simpa [singleSpaced, spacedFragments] using hcut
  | t :: u :: ts =>
      have hmore := cuts_singleSpaced fun v hv => h v (List.mem_cons_of_mem t hv)
      have hspace : Cuts (' ' :: (singleSpaced (u :: ts)).toList)
          (.loose ' ' :: spacedFragments (u :: ts)) :=
        .loose (by decide) (by decide) rfl hmore
      have hsign := hspace.stops_isSign fun c hc =>
        isBlank_of_mem_spacedFragments (spacedFragments_cons_cons t u ts ▸ List.mem_cons_of_mem _ hc)
      rw [toList_singleSpaced_cons_cons, spacedFragments_cons_cons]
      exact h t (by simp) rfl (comparison?_of_stops hsign) hspace

/-- **Single spacing.**  The tokens of a text, written with single spaces between them, are read as
the same tokens, and nothing between them is stray. -/
theorem ofText_singleSpaced
    {strict : Bool} {s : String} {ts : List Token}
    (h : ofText strict s = .ok ts)
    (mode : Bool) :
    ofText mode (singleSpaced ts) = .ok ts := by
  obtain ⟨fs, hcuts, -, hts, hne⟩ := ofText_eq_ok_iff.mp h
  have hsolid : ∀ t ∈ ts, Solid t := by
    intro t ht
    rw [← hts] at ht
    obtain ⟨fragment, hfragment, htoken⟩ := List.mem_filterMap.mp ht
    cases fragment with
    | loose c => simp [Fragment.token?] at htoken
    | token u =>
        obtain rfl : u = t := Option.some.inj htoken
        exact solid_of_mem_cuts hcuts hfragment
  exact ofText_eq_ok_iff.mpr ⟨spacedFragments ts, cuts_singleSpaced hsolid,
    fun _ c => isBlank_of_mem_spacedFragments, filterMap_spacedFragments ts, hne⟩

/-- The number of the first condition has been cut short, and two conditions stand side by side. -/
theorem ofText_singleSpaced_cut_number :
    ∃ ts, ts = [.condition "x=1", .opening, .condition "a\n<'p  q'", .condition "b=30c",
        .connective .or] ∧
      ofText false "x=1.5y(a\n<'p  q'b=30c OR" = .ok ts ∧
      singleSpaced ts = "x=1 ( a\n<'p  q' b=30c OR" ∧
      ofText true (singleSpaced ts) = .ok ts := by
  have h : ofText false "x=1.5y(a\n<'p  q'b=30c OR" =
      .ok [.condition "x=1", .opening, .condition "a\n<'p  q'", .condition "b=30c",
        .connective .or] := by
    decide +kernel
  exact ⟨_, rfl, h, by decide +kernel, ofText_singleSpaced h true⟩

end Token
end Eligibility
