import Eligibility.Proofs.Token.Cuts

/-!
# The tokens of a text

The tokens of a text are those among its fragments.  In strict mode they are given only if what is
loose is white space, and in both modes only if there are any.

**Results.**
* `firstStray?_eq_none_iff`: no text is stray exactly if all that is loose is white space;
* `ofText_eq_ok_iff`: the tokens of a text, in terms of its fragments;
* `ofText_eq_error`: the two faults of a text whose tokens are not given;
* `strict_or_stray`: tokens are given in strict mode too, unless stray text is dropped.
-/

namespace Eligibility
namespace Token

open Text

theorem stray?_eq_none_iff
    {loose : List Char} :
    stray? loose = none ↔ ∀ c ∈ loose, isBlank c = true := by
  rw [← trim_eq_nil_iff, stray?]
  simp

/-- No text is stray exactly if all that is loose is white space. -/
theorem firstStray?_eq_none_iff
    {loose : List Char} {fs : List Fragment} :
    firstStray? loose fs = none ↔
      (∀ c ∈ loose, isBlank c = true) ∧ ∀ c, .loose c ∈ fs → isBlank c = true := by
  have hreverse (cs : List Char) :
      stray? cs.reverse = none ↔ ∀ c ∈ cs, isBlank c = true := by
    simp [stray?_eq_none_iff]
  induction fs generalizing loose with
  | nil => simp [firstStray?, hreverse]
  | cons fragment fs ih =>
      cases fragment with
      | token t => simp [firstStray?, hreverse, ih]
      | loose c =>
          simp only [firstStray?, ih, List.mem_cons, Fragment.loose.injEq]
          constructor
          · rintro ⟨hloose, hfs⟩
            refine ⟨fun a ha => hloose a (.inr ha), ?_⟩
            rintro a (rfl | ha)
            · exact hloose a (.inl rfl)
            · exact hfs a ha
          · rintro ⟨hloose, hfs⟩
            refine ⟨?_, fun a ha => hfs a (.inr ha)⟩
            rintro a (rfl | ha)
            · exact hfs a (.inl rfl)
            · exact hloose a ha

/-- The tokens of a text, in terms of its fragments. -/
theorem ofText_eq_ok_iff
    {strict : Bool} {s : String} {ts : List Token} :
    ofText strict s = .ok ts ↔
      ∃ fs, Cuts s.toList fs ∧
        (strict = true → ∀ c, .loose c ∈ fs → isBlank c = true) ∧
        fs.filterMap Fragment.token? = ts ∧
        ts ≠ [] := by
  constructor
  · intro h
    simp only [ofText] at h
    split at h
    · simp at h
    · rename_i hstray
      split at h
      · simp at h
      · rename_i hne
        rw [Except.ok.injEq] at h
        refine ⟨fragments s, cuts_cut _, ?_, h, ?_⟩
        · intro hstrict
          rw [if_pos hstrict] at hstray
          exact (firstStray?_eq_none_iff.mp hstray).2
        · rintro rfl
          exact hne h
  · rintro ⟨fs, hcuts, hblank, rfl, hne⟩
    have hfragments : fragments s = fs := hcuts.cut_eq
    have hstray : (if strict then firstStray? [] fs else none) = none := by
      split
      · rename_i hstrict
        exact firstStray?_eq_none_iff.mpr ⟨by simp, hblank hstrict⟩
      · rfl
    simp only [ofText, hfragments, hstray]

/-- Tokens are not given for two reasons: stray text in strict mode, or none to give. -/
theorem ofText_eq_error
    {strict : Bool} {s : String} {fault : Fault}
    (h : ofText strict s = .error fault) :
    (strict = true ∧ ∃ text, fault = .strayText text) ∨ fault = .noTokens := by
  simp only [ofText] at h
  split at h
  · rename_i text hstray
    rw [Except.error.injEq] at h
    refine .inl ⟨?_, _, h.symm⟩
    cases strict with
    | true => rfl
    | false => simp at hstray
  · split at h
    · rw [Except.error.injEq] at h
      exact .inr h.symm
    · simp at h

/-- Tokens that are given in some mode are given in strict mode, unless stray text is dropped. -/
theorem strict_or_stray
    {strict : Bool} {s : String} {ts : List Token}
    (h : ofText strict s = .ok ts) :
    ofText true s = .ok ts ∨
      (strict = false ∧ ∃ text, ofText true s = .error (.strayText text)) := by
  obtain ⟨fs, hcuts, hblank, hts, hne⟩ := ofText_eq_ok_iff.mp h
  cases hstray : firstStray? [] fs with
  | none =>
      have hall := (firstStray?_eq_none_iff.mp hstray).2
      exact .inl (ofText_eq_ok_iff.mpr ⟨fs, hcuts, fun _ => hall, hts, hne⟩)
  | some text =>
      have hfragments : fragments s = fs := hcuts.cut_eq
      refine .inr ⟨?_, String.ofList text, by simp only [ofText, hfragments, if_true, hstray]⟩
      cases strict with
      | false => rfl
      | true =>
          rw [firstStray?_eq_none_iff.mpr ⟨by simp, hblank rfl⟩] at hstray
          simp at hstray

end Token
end Eligibility
