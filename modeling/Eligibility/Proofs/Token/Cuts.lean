import Eligibility.Proofs.Token.Scan

/-!
# How a text comes apart into fragments

`Cuts cs fs` follows the text from its start: each rule cuts one token, one loose word or one loose
character off and says what the text after it must be like.  So a proof about all texts is an
induction with one case a kind of fragment, and need not look into the scanner again.

**Results.**
* `cuts_iff`: the fragments of a text are those that the scanner gives;
* `Cuts.append`: if nothing but white space is loose, and the text after it goes on with nothing
  that is left open, both come apart as they do alone;
* `spelled_of_mem_cuts`: the conditions among the fragments are spellings of conditions.
-/

namespace Eligibility
namespace Token

open Text

/-- How a text comes apart into fragments. -/
inductive Cuts : List Char → List Fragment → Prop
  | nil : Cuts [] []
  | opening {cs : List Char} {fs : List Fragment}
      (more : Cuts cs fs) :
      Cuts ('(' :: cs) (.token .opening :: fs)
  | closing {cs : List Char} {fs : List Fragment}
      (more : Cuts cs fs) :
      Cuts (')' :: cs) (.token .closing :: fs)
  | condition {word comparison rest : List Char} {fs : List Fragment}
      (hne : word ≠ [])
      (hword : ∀ c ∈ word, isWord c = true)
      (hcut : comparison? (comparison ++ rest) = some (comparison, rest))
      (more : Cuts rest fs) :
      Cuts (word ++ (comparison ++ rest))
        (.token (.condition (String.ofList (word ++ comparison))) :: fs)
  | connective {k : Connective} {rest : List Char} {fs : List Fragment}
      (hstop : Stops isWord rest)
      (hnone : comparison? rest = none)
      (more : Cuts rest fs) :
      Cuts (k.word.toList ++ rest) (.token (.connective k) :: fs)
  | word {word rest : List Char} {fs : List Fragment}
      (hne : word ≠ [])
      (hword : ∀ c ∈ word, isWord c = true)
      (hstop : Stops isWord rest)
      (hnone : comparison? rest = none)
      (hk : Connective.ofWord? (String.ofList word) = none)
      (more : Cuts rest fs) :
      Cuts (word ++ rest) (word.map .loose ++ fs)
  | loose {c : Char} {cs : List Char} {fs : List Fragment}
      (hopening : c ≠ '(')
      (hclosing : c ≠ ')')
      (hword : isWord c = false)
      (more : Cuts cs fs) :
      Cuts (c :: cs) (.loose c :: fs)

/-- At a word a text comes apart as the scanner cuts it, if shorter texts do. -/
theorem cuts_cut_word
    {word tail : List Char}
    (hne : word ≠ [])
    (hword : ∀ c ∈ word, isWord c = true)
    (hstop : Stops isWord tail)
    (hshorter : ∀ rest, rest.length ≤ tail.length → Cuts rest (cut [] rest)) :
    Cuts (word ++ tail) (cut [] (word ++ tail)) := by
  cases hcut : comparison? tail with
  | some found =>
      obtain ⟨comparison, rest⟩ := found
      have hrest := hshorter rest (Nat.le_of_lt (length_lt_of_comparison? hcut))
      obtain rfl := append_of_comparison? hcut
      rw [cut_condition_append hne hword hcut]
      exact .condition hne hword hcut hrest
  | none =>
      have hrest := hshorter tail (Nat.le_refl _)
      rw [cut_word_append hne hword hstop hcut]
      cases hk : Connective.ofWord? (String.ofList word) with
      | none => exact .word hne hword hstop hcut hk hrest
      | some k =>
          obtain rfl : word = k.word.toList := by
            rw [← Connective.ofWord?_eq_some_iff.mp hk, String.toList_ofList]
          exact .connective hstop hcut hrest

theorem cuts_cut (cs : List Char) : Cuts cs (cut [] cs) := by
  match cs with
  | [] =>
      rw [cut]
      exact .nil
  | c :: cs =>
      by_cases hopening : c = '('
      · rw [hopening, cut_opening]
        exact .opening (cuts_cut cs)
      by_cases hclosing : c = ')'
      · rw [hclosing, cut_closing]
        exact .closing (cuts_cut cs)
      cases hc : isWord c with
      | false =>
          rw [cut_loose hopening hclosing hc]
          exact .loose hopening hclosing hc (cuts_cut cs)
      | true =>
          have hsplit : c :: cs = (c :: cs.takeWhile isWord) ++ cs.dropWhile isWord := by
            rw [List.cons_append, List.takeWhile_append_dropWhile]
          have hword : ∀ a ∈ c :: cs.takeWhile isWord, isWord a = true := by
            intro a ha
            rcases List.mem_cons.mp ha with rfl | ha
            · exact hc
            · exact List.mem_takeWhile_imp ha
          have hdrop := (List.dropWhile_sublist isWord (l := cs)).length_le
          rw [hsplit]
          exact cuts_cut_word (by simp) hword (stops_dropWhile isWord cs) fun rest hrest =>
            cuts_cut rest
termination_by cs.length
decreasing_by
  all_goals simp only [List.length_cons]
  all_goals omega

theorem Cuts.cut_eq
    {cs : List Char} {fs : List Fragment}
    (h : Cuts cs fs) :
    cut [] cs = fs := by
  induction h with
  | nil => rw [cut, List.reverse_nil]
  | opening more ih => rw [cut_opening, ih]
  | closing more ih => rw [cut_closing, ih]
  | condition hne hword hcut more ih => rw [cut_condition_append hne hword hcut, ih]
  | connective hstop hnone more ih => rw [cut_connective _ hstop hnone, ih]
  | word hne hword hstop hnone hk more ih => rw [cut_word_append hne hword hstop hnone, hk, ih]
  | loose hopening hclosing hword more ih => rw [cut_loose hopening hclosing hword, ih]

/-- The fragments of a text are those that the scanner gives. -/
theorem cuts_iff
    {cs : List Char} {fs : List Fragment} :
    Cuts cs fs ↔ cut [] cs = fs := by
  constructor
  · exact Cuts.cut_eq
  · rintro rfl
    exact cuts_cut cs

/-! ## Conditions among the fragments -/

/-- A word with a comparison is the spelling of a condition. -/
theorem exists_spelled
    {word comparison rest : List Char}
    (hne : word ≠ [])
    (hword : ∀ c ∈ word, isWord c = true)
    (hcut : comparison? (comparison ++ rest) = some (comparison, rest)) :
    ∃ c, Condition.Spelled (word ++ comparison) c := by
  obtain ⟨before, after, operand, sign, rfl, hbefore, hafter, hsign, hoperand⟩ :=
    exists_of_comparison? hcut
  obtain ⟨k, hk⟩ := exists_comparator hsign
  obtain ⟨l, hl, -⟩ := spelled_of_operand? hoperand
  have hspelled := Condition.Spelled.intro (k := k) hne hword hbefore hafter hl
  rw [hk] at hspelled
  exact ⟨_, hspelled⟩

/-- A condition among the fragments spells a condition, so that it reads. -/
theorem spelled_of_mem_cuts
    {cs : List Char} {fs : List Fragment} {text : String}
    (h : Cuts cs fs)
    (hmem : .token (.condition text) ∈ fs) :
    ∃ c, Condition.Spelled text.toList c := by
  induction h with
  | nil => simp at hmem
  | opening more ih => exact ih (by simpa using hmem)
  | closing more ih => exact ih (by simpa using hmem)
  | condition hne hword hcut more ih =>
      rcases List.mem_cons.mp hmem with hhead | hmem
      · simp only [Fragment.token.injEq, Token.condition.injEq] at hhead
        rw [hhead, String.toList_ofList]
        exact exists_spelled hne hword hcut
      · exact ih hmem
  | connective hstop hnone more ih => exact ih (by simpa using hmem)
  | word hne hword hstop hnone hk more ih => exact ih (by simpa using hmem)
  | loose hopening hclosing hword more ih => exact ih (by simpa using hmem)

/-! ## Texts one after another -/

/-- The text goes on with nothing that a text before it could leave open. -/
structure Closes (rest : List Char) : Prop where
  parts : Parts rest
  stops_isBlank : Stops isBlank rest
  stops_isSign : Stops isSign rest

theorem closes_closing (rest : List Char) : Closes (')' :: rest) :=
  ⟨rfl, rfl, rfl⟩

/-- A loose word is no white space. -/
theorem not_blank_of_loose_word
    {word : List Char} {fs : List Fragment}
    (hne : word ≠ [])
    (hword : ∀ c ∈ word, isWord c = true) :
    ¬ ∀ c, .loose c ∈ word.map .loose ++ fs → isBlank c = true := by
  intro hblank
  obtain ⟨c, hc⟩ := List.exists_mem_of_ne_nil word hne
  have hloose := hblank c (by simp [hc])
  rw [isBlank_of_isWord (hword c hc)] at hloose
  exact absurd hloose Bool.false_ne_true

theorem comparison?_of_stops
    {cs : List Char}
    (h : Stops isSign (cs.dropWhile isBlank)) :
    comparison? cs = none := by
  unfold comparison?
  split
  · rfl
  · rename_i sign rest hdrop
    rw [hdrop, stops_cons] at h
    rw [if_neg (by simp [h])]

/-- A sign that is part of no condition is loose. -/
theorem Cuts.stops_isSign
    {cs : List Char} {fs : List Fragment}
    (h : Cuts cs fs)
    (hblank : ∀ c, .loose c ∈ fs → isBlank c = true) :
    Stops isSign (cs.dropWhile isBlank) := by
  have hwords {word rest : List Char} (hne : word ≠ []) (hword : ∀ c ∈ word, isWord c = true) :
      Stops isSign ((word ++ rest).dropWhile isBlank) := by
    rw [dropWhile_of_stops (stops_append hne fun c hc => isBlank_of_isWord (hword c hc))]
    exact stops_append hne fun c hc => isSign_eq_false (Condition.isSign_of_isWord (hword c hc))
  induction h with
  | nil => trivial
  | opening more ih => exact rfl
  | closing more ih => exact rfl
  | condition hne hword hcut more ih => exact hwords hne hword
  | @connective k rest fs hstop hnone more ih => exact hwords k.word_ne_nil k.isWord_word
  | word hne hword hstop hnone hk more ih => exact hwords hne hword
  | loose hopening hclosing hword more ih =>
      rw [List.dropWhile_cons_of_pos (hblank _ (by simp))]
      exact ih fun c hc => hblank c (List.mem_cons_of_mem _ hc)

/-- Two texts come apart as they do alone, if in the first only white space is loose and the second
closes it. -/
theorem Cuts.append
    {cs rest : List Char} {fs gs : List Fragment}
    (h : Cuts cs fs)
    (hblank : ∀ c, .loose c ∈ fs → isBlank c = true)
    (hrest : Closes rest)
    (hmore : Cuts rest gs) :
    Cuts (cs ++ rest) (fs ++ gs) := by
  induction h with
  | nil => exact hmore
  | opening more ih => exact .opening (ih (by simpa using hblank))
  | closing more ih => exact .closing (ih (by simpa using hblank))
  | condition hne hword hcut more ih =>
      have hextended := comparison?_append hcut hrest.parts
      rw [List.append_assoc] at hextended
      rw [List.append_assoc, List.append_assoc, List.cons_append]
      exact .condition hne hword hextended (ih (by simpa using hblank))
  | @connective k tail fs hstop hnone more ih =>
      have hblank' : ∀ c, .loose c ∈ fs → isBlank c = true := by simpa using hblank
      have hsign : Stops isSign ((tail ++ rest).dropWhile isBlank) := by
        rw [dropWhile_append_stops tail hrest.stops_isBlank]
        exact (more.stops_isSign hblank').append hrest.stops_isSign
      rw [List.append_assoc, List.cons_append]
      exact .connective (hstop.append hrest.parts.stops_isWord) (comparison?_of_stops hsign)
        (ih hblank')
  | @word word tail fs hne hword hstop hnone hk more ih =>
      exact absurd hblank (not_blank_of_loose_word hne hword)
  | loose hopening hclosing hword more ih =>
      exact .loose hopening hclosing hword (ih fun c hc => hblank c (List.mem_cons_of_mem _ hc))

end Token
end Eligibility
