import Eligibility.Formula.Infix
import Eligibility.Proofs.Token.Reading

/-!
# The gaps between tokens

What a rule text holds between its tokens is loose.  Strict mode accepts a text exactly if it is
made of the tokens of lenient mode and white space; otherwise it reports the first gap that holds
anything else.  That the text could be made of these tokens in another way is no exception: since no
token is white space, counting the other characters shows that nothing is dropped.

**Results.**
* `Cuts.textOf_eq`: the fragments of a text, put together again, are the text;
* `spaced_iff`: a text is made of its tokens and white space exactly if only white space is loose;
* `exists_firstStrayGap`: where strict mode alone gives no tokens, a first stray gap is reported;
* `strict_drops_nothing`: strict mode, in terms of lenient mode and the gaps.
-/

namespace Eligibility

namespace Fragment

/-- The text that the fragments were cut from. -/
def textOf (fs : List Fragment) : List Char :=
  fs.flatMap ruleText

@[simp] theorem textOf_nil : textOf [] = [] := rfl

@[simp] theorem textOf_cons
    (f : Fragment) (fs : List Fragment) :
    textOf (f :: fs) = f.ruleText ++ textOf fs := rfl

@[simp] theorem textOf_append
    (fs gs : List Fragment) :
    textOf (fs ++ gs) = textOf fs ++ textOf gs :=
  List.flatMap_append

@[simp] theorem textOf_loose (cs : List Char) : textOf (cs.map loose) = cs :=
  flatMap_ruleText_loose cs

end Fragment

namespace Token

open Text Fragment

/-- The text of the tokens in turn, with only white space before, between and after them. -/
inductive Spaced : List Token → List Char → Prop
  | nil {blanks : List Char}
      (hblanks : ∀ c ∈ blanks, isBlank c = true) :
      Spaced [] blanks
  | cons {t : Token} {ts : List Token} {blanks cs : List Char}
      (hblanks : ∀ c ∈ blanks, isBlank c = true)
      (more : Spaced ts cs) :
      Spaced (t :: ts) (blanks ++ (t.ruleText ++ cs))

/-- The first gap between tokens, before the first or after the last, that holds more than white
space. -/
structure FirstStrayGap (fs before : List Fragment) (gap : List Char) (after : List Fragment) :
    Prop where
  fragments_eq : fs = before ++ (gap.map .loose ++ after)
  token_before : ∀ c, before.getLast? ≠ some (.loose c)
  token_after : ∀ c, after.head? ≠ some (.loose c)
  isBlank_before : ∀ c, .loose c ∈ before → isBlank c = true
  trim_ne_nil : trim gap ≠ []

/-- The fragments of a text, put together again, are the text. -/
theorem Cuts.textOf_eq
    {cs : List Char} {fs : List Fragment}
    (h : Cuts cs fs) :
    textOf fs = cs := by
  rw [← h.cut_eq]
  exact ruleText_cut [] cs

/-- The gap is a piece of the text, with the other fragments before and after it. -/
theorem FirstStrayGap.textOf_eq
    {fs before after : List Fragment} {gap : List Char}
    (h : FirstStrayGap fs before gap after) :
    textOf fs = textOf before ++ (gap ++ textOf after) := by
  rw [h.fragments_eq, textOf_append, textOf_append, textOf_loose]

theorem FirstStrayGap.filterMap_eq
    {fs before after : List Fragment} {gap : List Char}
    (h : FirstStrayGap fs before gap after) :
    fs.filterMap token? = before.filterMap token? ++ after.filterMap token? := by
  rw [h.fragments_eq, List.filterMap_append, List.filterMap_append, filterMap_token?_loose,
    List.nil_append]

/-! ## White space between tokens -/

theorem Spaced.blank
    {ts : List Token} {cs : List Char} {c : Char}
    (hc : isBlank c = true)
    (h : Spaced ts cs) :
    Spaced ts (c :: cs) := by
  cases h with
  | nil hblanks => exact .nil (List.forall_mem_cons.mpr ⟨hc, hblanks⟩)
  | @cons t ts blanks cs hblanks more =>
      rw [← List.cons_append]
      exact .cons (List.forall_mem_cons.mpr ⟨hc, hblanks⟩) more

theorem spaced_of_blank
    {fs : List Fragment}
    (h : ∀ c, .loose c ∈ fs → isBlank c = true) :
    Spaced (fs.filterMap token?) (textOf fs) := by
  induction fs with
  | nil => exact .nil (by simp)
  | cons fragment fs ih =>
      have hmore := ih fun c hc => h c (List.mem_cons_of_mem _ hc)
      cases fragment with
      | token t =>
          have hblanks : ∀ c ∈ [], isBlank c = true := by simp
          exact .cons hblanks hmore
      | loose c => exact hmore.blank (h c (by simp))

/-- Whether the character can be seen. -/
def isInk (c : Char) : Bool :=
  !isBlank c

/-- Whether the fragment is loose and can be seen. -/
def isStray : Fragment → Bool
  | .loose c => isInk c
  | .token _ => false

theorem countP_isInk_eq_zero
    {cs : List Char}
    (h : ∀ c ∈ cs, isBlank c = true) :
    cs.countP isInk = 0 := by
  rw [List.countP_eq_zero]
  intro c hc
  simp [isInk, h c hc]

theorem Spaced.countP_isInk
    {ts : List Token} {cs : List Char}
    (h : Spaced ts cs) :
    cs.countP isInk = (ts.flatMap Token.ruleText).countP isInk := by
  induction h with
  | nil hblanks => exact countP_isInk_eq_zero hblanks
  | cons hblanks more ih =>
      rw [List.countP_append, countP_isInk_eq_zero hblanks, Nat.zero_add, List.countP_append, ih,
        List.flatMap_cons, List.countP_append]

theorem countP_isInk_fragments (fs : List Fragment) :
    (textOf fs).countP isInk =
      ((fs.filterMap token?).flatMap Token.ruleText).countP isInk + fs.countP isStray := by
  induction fs with
  | nil => rfl
  | cons fragment fs ih =>
      rw [textOf_cons, List.countP_append, ih, List.countP_cons]
      cases fragment with
      | token t =>
          have hstray : isStray (.token t) = false := rfl
          rw [hstray]
          simp only [List.filterMap_cons, token?, Fragment.ruleText, List.flatMap_cons,
            List.countP_append, Bool.false_eq_true, if_false]
          omega
      | loose c =>
          have hstray : isStray (.loose c) = isInk c := rfl
          rw [hstray]
          simp only [List.filterMap_cons, token?, Fragment.ruleText, List.countP_cons,
            List.countP_nil]
          omega

/-- A text is made of its tokens and white space exactly if only white space is loose. -/
theorem spaced_iff
    {fs : List Fragment} :
    Spaced (fs.filterMap token?) (textOf fs) ↔
      ∀ c, .loose c ∈ fs → isBlank c = true := by
  constructor
  · intro h c hc
    have hcount := countP_isInk_fragments fs
    rw [h.countP_isInk] at hcount
    have hstray := List.countP_eq_zero.mp (show fs.countP isStray = 0 by omega) _ hc
    simpa [isStray, isInk] using hstray
  · exact spaced_of_blank

theorem ofText_strict_iff
    {s : String} {ts : List Token} :
    ofText true s = .ok ts ↔ ofText false s = .ok ts ∧ Spaced ts s.toList := by
  constructor
  · intro h
    obtain ⟨fs, hcuts, hblank, rfl, hne⟩ := ofText_eq_ok_iff.mp h
    refine ⟨ofText_eq_ok_iff.mpr ⟨fs, hcuts, by simp, rfl, hne⟩, ?_⟩
    rw [← hcuts.textOf_eq]
    exact spaced_of_blank (hblank rfl)
  · rintro ⟨h, hspaced⟩
    obtain ⟨fs, hcuts, -, rfl, hne⟩ := ofText_eq_ok_iff.mp h
    rw [← hcuts.textOf_eq] at hspaced
    exact ofText_eq_ok_iff.mpr ⟨fs, hcuts, fun _ => spaced_iff.mp hspaced, rfl, hne⟩

/-! ## The first stray gap -/

theorem stray?_eq_some_iff
    {loose text : List Char} :
    stray? loose = some text ↔ trim loose = text ∧ trim loose ≠ [] := by
  rw [stray?]
  by_cases h : trim loose = []
  · simp [h]
  · simp [h]

/-- The gap that is reported, where `loose` holds what is loose before the fragments in reverse. -/
theorem exists_of_firstStray?
    {loose text : List Char} {fs : List Fragment}
    (h : firstStray? loose fs = some text) :
    ∃ before gap after,
      FirstStrayGap (loose.reverse.map .loose ++ fs) before gap after ∧ text = trim gap := by
  induction fs generalizing loose with
  | nil =>
      obtain ⟨rfl, hne⟩ := stray?_eq_some_iff.mp h
      exact ⟨[], loose.reverse, [], ⟨by simp, by simp, by simp, by simp, hne⟩, rfl⟩
  | cons fragment fs ih =>
      cases fragment with
      | loose c =>
          obtain ⟨before, gap, after, hgap, htext⟩ := ih h
          refine ⟨before, gap, after, ?_, htext⟩
          simpa using hgap
      | token t =>
          rw [firstStray?, Option.or_eq_some_iff] at h
          rcases h with h | ⟨hnone, h⟩
          · obtain ⟨rfl, hne⟩ := stray?_eq_some_iff.mp h
            exact ⟨[], loose.reverse, .token t :: fs, ⟨by simp, by simp, by simp, by simp, hne⟩,
              rfl⟩
          · -- the gap before this token is white space, so the one reported comes later
            obtain ⟨before, gap, after, hgap, htext⟩ := ih h
            obtain ⟨hfs, hbefore, hafter, hblank, hne⟩ := hgap
            refine ⟨loose.reverse.map .loose ++ .token t :: before, gap, after,
              ⟨?_, ?_, hafter, ?_, hne⟩, htext⟩
            · rw [List.reverse_nil, List.map_nil, List.nil_append] at hfs
              rw [hfs]
              simp
            · intro c
              cases hlast : before.getLast? with
              | none => simp [List.getLast?_cons, hlast]
              | some f =>
                  have hf : f ≠ .loose c := fun heq => hbefore c (by rw [hlast, heq])
                  simpa [List.getLast?_cons, hlast] using hf
            · intro c hc
              rcases List.mem_append.mp hc with hc | hc
              · exact stray?_eq_none_iff.mp hnone c (by simpa using hc)
              · exact hblank c (by simpa using hc)

/-- Where strict mode alone gives no tokens, it reports the first gap that is more than white
space. -/
theorem exists_firstStrayGap
    {s : String} {fault : Fault} {ts : List Token}
    (hlenient : ofText false s = .ok ts)
    (hstrict : ofText true s = .error fault) :
    ∃ before gap after,
      FirstStrayGap (fragments s) before gap after ∧
      s.toList = textOf before ++ (gap ++ textOf after) ∧
      ts = before.filterMap token? ++ after.filterMap token? ∧
      fault = .strayText (String.ofList (trim gap)) := by
  obtain ⟨fs, hcuts, -, rfl, hne⟩ := ofText_eq_ok_iff.mp hlenient
  have hfragments : fragments s = fs := hcuts.cut_eq
  simp only [ofText, hfragments, if_true] at hstrict
  cases hstray : firstStray? [] fs with
  | none =>
      have hall := (firstStray?_eq_none_iff.mp hstray).2
      have hok : ofText true s = .ok (fs.filterMap token?) :=
        ofText_eq_ok_iff.mpr ⟨fs, hcuts, fun _ => hall, rfl, hne⟩
      simp only [ofText, hfragments, if_true, hstrict] at hok
      simp at hok
  | some text =>
      obtain ⟨before, gap, after, hgap, rfl⟩ := exists_of_firstStray? hstray
      simp only [hstray, Except.error.injEq] at hstrict
      rw [List.reverse_nil, List.map_nil, List.nil_append] at hgap
      rw [hfragments, ← hcuts.textOf_eq]
      exact ⟨before, gap, after, hgap, hgap.textOf_eq, hgap.filterMap_eq, hstrict.symm⟩

end Token

namespace Formula

open Text Token Fragment

/-- **Strict mode drops nothing.**  The tokens of a text in strict mode are those of lenient mode,
where these and white space make up the text.  Where lenient mode gives tokens and strict mode does
not, the first gap that holds more than white space is reported, without the white space at its
ends.  So what is read as a rule in strict mode is read as the same in lenient mode. -/
theorem strict_drops_nothing (s : String) :
    (∀ ts, Token.ofText true s = .ok ts ↔
      Token.ofText false s = .ok ts ∧ Spaced ts s.toList) ∧
    (∀ ts fault, Token.ofText false s = .ok ts → Token.ofText true s = .error fault →
      ∃ before gap after,
        FirstStrayGap (Token.fragments s) before gap after ∧
        s.toList = textOf before ++ (gap ++ textOf after) ∧
        ts = before.filterMap token? ++ after.filterMap token? ∧
        fault = .strayText (String.ofList (trim gap))) ∧
    (∀ f, ofText true s = .ok f → ofText false s = .ok f) := by
  refine ⟨fun ts => ofText_strict_iff, fun ts fault => exists_firstStrayGap, ?_⟩
  intro f hf
  obtain ⟨ts, hstrict, hread⟩ := Formula.ofText_eq_ok_iff.mp hf
  exact Formula.ofText_eq_ok_iff.mpr ⟨ts, (ofText_strict_iff.mp hstrict).1, hread⟩

/-- White space and parentheses leave no gap; of two gaps with stray text the first is reported. -/
theorem strict_drops_nothing_between_tokens :
    (Token.ofText true " (a=x\n)" = .ok [.opening, .condition "a=x", .closing] ∧
      Token.ofText false " (a=x\n)" = .ok [.opening, .condition "a=x", .closing] ∧
      Spaced [.opening, .condition "a=x", .closing] " (a=x\n)".toList) ∧
    (Token.ofText false "a=x && b=y ;" = .ok [.condition "a=x", .condition "b=y"] ∧
      Token.ofText true "a=x && b=y ;" = .error (.strayText "&&") ∧
      ∃ before gap after,
        FirstStrayGap (Token.fragments "a=x && b=y ;") before gap after ∧
        "a=x && b=y ;".toList = textOf before ++ (gap ++ textOf after) ∧
        [.condition "a=x", .condition "b=y"] =
          before.filterMap token? ++ after.filterMap token? ∧
        Fault.strayText "&&" = .strayText (String.ofList (trim gap))) ∧
    (ofText true " (a=x\n)" = .ok (leaf ⟨"a", .equal, .text "x"⟩) ∧
      ofText false " (a=x\n)" = .ok (leaf ⟨"a", .equal, .text "x"⟩)) := by
  have htokens : Token.ofText true " (a=x\n)" = .ok [.opening, .condition "a=x", .closing] := by
    decide +kernel
  have hlenient : Token.ofText false "a=x && b=y ;" =
      .ok [.condition "a=x", .condition "b=y"] := by
    decide +kernel
  have hstrict : Token.ofText true "a=x && b=y ;" = .error (.strayText "&&") := by
    decide +kernel
  have hread : ofText true " (a=x\n)" = .ok (leaf ⟨"a", .equal, .text "x"⟩) := by
    decide +kernel
  obtain ⟨hiff, -, hsame⟩ := strict_drops_nothing " (a=x\n)"
  exact ⟨⟨htokens, (hiff _).mp htokens⟩,
    ⟨hlenient, hstrict, (strict_drops_nothing _).2.1 _ _ hlenient hstrict⟩, hread, hsame _ hread⟩

end Formula
end Eligibility
