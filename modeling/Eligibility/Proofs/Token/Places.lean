import Eligibility.Proofs.Token.Gaps

/-!
# Places in a text

Every place of a text lies in one of its fragments, and `Placed` says how a fragment stands between
those before and after it: one case for each kind of token, one for a letter of a loose word, which
stands in the whole of it, and one for any other loose character.

**Results.**
* `exists_fragment`: the fragment at a place of the text;
* `Cuts.placed`: how the fragments of a text stand in it.
-/

namespace Eligibility
namespace Token

open Text Fragment

/-- A place in two texts in turn lies in the first or in the second. -/
theorem append_eq_append_cons
    {text rest earlier later : List Char} {c : Char}
    (h : text ++ rest = earlier ++ c :: later) :
    (∃ second, text = earlier ++ c :: second ∧ later = second ++ rest) ∨
      ∃ more, earlier = text ++ more ∧ rest = more ++ c :: later := by
  rcases List.append_eq_append_iff.mp h with ⟨more, rfl, rfl⟩ | ⟨second, rfl, htail⟩
  · exact .inr ⟨more, rfl, rfl⟩
  · cases second with
    | nil => exact .inr ⟨[], by simp, htail.symm⟩
    | cons d second =>
        obtain ⟨rfl, rfl⟩ := List.cons.inj htail
        exact .inl ⟨second, rfl, rfl⟩

/-- A character that the first of two texts in turn does not hold lies in the second. -/
theorem append_eq_append_cons_of_not_mem
    {text rest earlier later : List Char} {c : Char}
    (h : text ++ rest = earlier ++ c :: later)
    (hc : c ∉ text) :
    ∃ more, earlier = text ++ more ∧ rest = more ++ c :: later := by
  rcases append_eq_append_cons h with ⟨second, rfl, -⟩ | hmore
  · exact absurd (by simp) hc
  · exact hmore

/-- The fragment at a place of the text, with what of it lies before and after the place. -/
theorem exists_fragment
    {fs : List Fragment} {earlier later : List Char} {c : Char}
    (h : textOf fs = earlier ++ c :: later) :
    ∃ before f after first second,
      fs = before ++ f :: after ∧
      earlier = textOf before ++ first ∧
      f.ruleText = first ++ c :: second ∧
      later = second ++ textOf after := by
  induction fs generalizing earlier with
  | nil => simp at h
  | cons f fs ih =>
      rw [textOf_cons] at h
      rcases append_eq_append_cons h with ⟨second, hf, rfl⟩ | ⟨more, rfl, hmore⟩
      · exact ⟨[], f, fs, earlier, second, rfl, rfl, hf, rfl⟩
      · obtain ⟨before, g, after, first, second, rfl, rfl, hg, rfl⟩ := ih hmore
        exact ⟨f :: before, g, after, first, second, rfl, by simp, hg, rfl⟩

/-- How a fragment stands between those before and after it. -/
inductive Placed : List Fragment → Fragment → List Fragment → Prop
  | opening {before after : List Fragment} :
      Placed before (.token .opening) after
  | closing {before after : List Fragment} :
      Placed before (.token .closing) after
  | condition {before after : List Fragment} {word comparison : List Char}
      (hne : word ≠ [])
      (hword : ∀ c ∈ word, isWord c = true)
      (hcut : comparison? (comparison ++ textOf after) = some (comparison, textOf after)) :
      Placed before (.token (.condition (String.ofList (word ++ comparison)))) after
  | connective {before after : List Fragment} {k : Connective}
      (hstop : Stops isWord (textOf after)) :
      Placed before (.token (.connective k)) after
  | letter {before after : List Fragment} {letters more : List Char} {c : Char}
      (hword : ∀ a ∈ letters ++ c :: more, isWord a = true)
      (hstop : Stops isWord (textOf after))
      (hnone : comparison? (textOf after) = none)
      (hk : Connective.ofWord? (String.ofList (letters ++ c :: more)) = none) :
      Placed (before ++ letters.map .loose) (.loose c) (more.map .loose ++ after)
  | loose {before after : List Fragment} {c : Char}
      (hopening : c ≠ '(')
      (hclosing : c ≠ ')')
      (hword : isWord c = false) :
      Placed before (.loose c) after

/-- A fragment stands in the same way if more comes before it. -/
theorem Placed.prepend
    {before after : List Fragment} {f : Fragment}
    (h : Placed before f after)
    (gs : List Fragment) :
    Placed (gs ++ before) f after := by
  cases h with
  | opening => exact .opening
  | closing => exact .closing
  | condition hne hword hcut => exact .condition hne hword hcut
  | connective hstop => exact .connective hstop
  | letter hword hstop hnone hk =>
      rw [← List.append_assoc]
      exact .letter hword hstop hnone hk
  | loose hopening hclosing hword => exact .loose hopening hclosing hword

/-- The first of the fragments stands as it does, or a later one is meant. -/
theorem placed_cons
    {f g : Fragment} {fs before after : List Fragment}
    (hsplit : g :: fs = before ++ f :: after)
    (hfirst : Placed [] g fs)
    (hmore : ∀ before, fs = before ++ f :: after → Placed before f after) :
    Placed before f after := by
  cases before with
  | nil =>
      obtain ⟨rfl, rfl⟩ := List.cons.inj hsplit
      exact hfirst
  | cons g' before =>
      obtain ⟨rfl, rfl⟩ := List.cons.inj hsplit
      exact (hmore before rfl).prepend [g]

/-- Each fragment of a text stands where the scanner has cut it off. -/
theorem Cuts.placed
    {cs : List Char} {before after : List Fragment} {f : Fragment}
    (h : Cuts cs (before ++ f :: after)) :
    Placed before f after := by
  generalize hfs : before ++ f :: after = fs at h
  induction h generalizing before with
  | nil => simp at hfs
  | opening more ih => exact placed_cons hfs.symm .opening fun before h => ih h.symm
  | closing more ih => exact placed_cons hfs.symm .closing fun before h => ih h.symm
  | condition hne hword hcut more ih =>
      rw [← more.textOf_eq] at hcut
      exact placed_cons hfs.symm (.condition hne hword hcut) fun before h => ih h.symm
  | connective hstop hnone more ih =>
      rw [← more.textOf_eq] at hstop
      exact placed_cons hfs.symm (.connective hstop) fun before h => ih h.symm
  | @word word rest fs hne hword hstop hnone hk more ih =>
      rw [← more.textOf_eq] at hstop hnone
      rcases List.append_eq_append_iff.mp hfs with ⟨inside, hinside, htail⟩ | ⟨later, rfl, htail⟩
      · cases inside with
        | nil =>
            -- the fragment is the first after the word
            rw [List.append_nil] at hinside
            have hfirst : [] ++ f :: after = fs := htail
            rw [← hinside, ← List.append_nil (word.map Fragment.loose)]
            exact (ih hfirst).prepend _
        | cons g inside =>
            -- the fragment is a letter of the word
            obtain ⟨rfl, rfl⟩ := List.cons.inj htail
            obtain ⟨letters, rest', rfl, rfl, hrest⟩ := List.map_eq_append_iff.mp hinside
            obtain ⟨c, more', rfl, rfl, rfl⟩ := List.map_eq_cons_iff.mp hrest
            exact (Placed.letter hword hstop hnone hk : Placed ([] ++ _) _ _)
      · exact (ih htail.symm).prepend _
  | loose hopening hclosing hword more ih =>
      exact placed_cons hfs.symm (.loose hopening hclosing hword) fun before h => ih h.symm

end Token
end Eligibility
