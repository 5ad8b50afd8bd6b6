import Eligibility.Proofs.Json.Document
import Eligibility.Proofs.Json.NumeralText
import Eligibility.Proofs.Json.Text

/-!
# Layouts of documents

A text lays out a sequence of lexemes if it spells them in order, with white space between them or
without.  Cutting a text into lexemes gives back the lexemes that it lays out, as long as none that
may go on follows a number, and no text is cut into other lexemes than it lays out.

**Results.**
* `Laid.cut_append`, `Laid.cut_eq`: a text is cut into the lexemes that it lays out;
* `laid_cut`: a text lays out the lexemes that it is cut into, if all of it can be cut;
* `ofText_of_laid`: however it is laid out, a complete document is read as itself.
-/

namespace Eligibility
namespace Json

open Text (Stops stops_cons)

namespace Lexeme

/-- How a lexeme may be spelled. -/
inductive Spelled : Lexeme → List Char → Prop
  | mark {c : Char} {l : Lexeme} (h : mark? c = some l) : Spelled l [c]
  | null : Spelled .null ['n', 'u', 'l', 'l']
  | true : Spelled (.bool true) ['t', 'r', 'u', 'e']
  | false : Spelled (.bool false) ['f', 'a', 'l', 's', 'e']
  | number {n : Numeral} {cs : List Char} (h : n.Spelled cs) : Spelled (.number n) cs
  | text {parts : List TextPart} {cs : List Char} (h : PartsSpelled parts cs) :
      Spelled (.text ((TextPart.assemble [] parts).map String.ofList)) ('"' :: (cs ++ ['"']))

/-- The text lays out the lexemes. -/
inductive Laid : List Lexeme → List Char → Prop
  | nil : Laid [] []
  | space {c : Char} {ls : List Lexeme} {cs : List Char}
      (hc : isSpace c = true) (h : Laid ls cs) : Laid ls (c :: cs)
  | lexeme {l : Lexeme} {ls : List Lexeme} {spelling cs : List Char}
      (hl : l.Spelled spelling) (h : Laid ls cs) : Laid (l :: ls) (spelling ++ cs)

/-- Whether a lexeme is a mark. -/
def isMark : Lexeme → Bool
  | openList | closeList | openObject | closeObject | comma | colon => true
  | _ => false

/-- The lexemes go on with a mark, if they go on. -/
def Marked : List Lexeme → Prop
  | [] => True
  | l :: _ => l.isMark = true

/-- One of two neighbours is always a mark. -/
def Separated : List Lexeme → Prop
  | [] => True
  | l :: ls => (l.isMark = true ∨ Marked ls) ∧ Separated ls

/-! ## Cutting a layout -/

theorem cut_space
    {c : Char}
    (hspace : isSpace c = true)
    (rest : List Char) :
    cut [] (c :: rest) = cut [] rest := by
  rw [cut, if_pos hspace]

theorem cut_mark
    {c : Char} {l : Lexeme}
    (hspace : isSpace c = false)
    (hmark : mark? c = some l)
    (rest : List Char) :
    cut [] (c :: rest) = l :: cut [] rest := by
  rw [cut, if_neg (by simp [hspace])]
  simp only [hmark]
  exact cut_append [] [_] rest

theorem cut_first_scalar
    {cs rest : List Char} {l : Lexeme}
    (hcut : scalar? cs = some (l, rest))
    (hspace : Stops isSpace cs)
    (hmark : Stops (fun c => (mark? c).isSome) cs) :
    cut [] cs = l :: cut [] rest := by
  cases cs with
  | nil => simp [scalar?, Numeral.from?, Numeral.wholeFrom?, Numeral.takeMinus] at hcut
  | cons c cs =>
      have hnone : mark? c = none := by simpa using hmark
      rw [cut_scalar hspace hnone hcut]
      exact cut_append [] [_] rest

theorem eq_of_mark?
    {c : Char} {l : Lexeme}
    (h : mark? c = some l) :
    c = '[' ∨ c = ']' ∨ c = '\x7b' ∨ c = '\x7d' ∨ c = ',' ∨ c = ':' := by
  by_contra hc
  rw [not_or, not_or, not_or, not_or, not_or] at hc
  simp [mark?, hc] at h

theorem isSpace_of_mark?
    {c : Char} {l : Lexeme}
    (h : mark? c = some l) :
    isSpace c = false := by
  rcases eq_of_mark? h with rfl | rfl | rfl | rfl | rfl | rfl <;> rfl

/-- Whether a lexeme of another kind than a number starts with the character. -/
def startsOther (c : Char) : Bool :=
  isSpace c || (mark? c).isSome || c == '"' || c == 't' || c == 'f' || c == 'n'

theorem startsOther_of_numeral
    {c : Char}
    (h : c.isDigit = true ∨ c = '-' ∨ c = '+' ∨ c = '.' ∨ c = 'e' ∨ c = 'E') :
    startsOther c = false := by
  rcases h with h | rfl | rfl | rfl | rfl | rfl
  · simp [startsOther, isSpace, mark?, Text.ne_of_isDigit h]
  all_goals rfl

theorem scalar?_of_stops
    {cs : List Char}
    (h : Stops startsOther cs) :
    scalar? cs = (Numeral.from? cs).map fun cut => (.number cut.1, cut.2) := by
  unfold scalar?
  split
  · exact absurd (stops_cons.mp h) (by decide)
  · exact absurd (stops_cons.mp h) (by decide)
  · exact absurd (stops_cons.mp h) (by decide)
  · exact absurd (stops_cons.mp h) (by decide)
  · rfl

theorem cut_numeral
    {n : Numeral} {cs rest : List Char}
    (h : n.Spelled cs)
    (hrest : Numeral.Parts rest) :
    cut [] (cs ++ rest) = .number n :: cut [] rest := by
  have hstops : Stops startsOther (cs ++ rest) :=
    Text.stops_append h.ne_nil fun c hc => startsOther_of_numeral (h.mem hc)
  have hscalar : scalar? (cs ++ rest) = some (.number n, rest) := by
    rw [scalar?_of_stops hstops, Numeral.from?_append h hrest]
    rfl
  refine cut_first_scalar hscalar (hstops.mono ?_) (hstops.mono ?_)
  · intro c hc
    simp only [startsOther, Bool.or_eq_false_iff] at hc
    exact hc.1.1.1.1.1
  · intro c hc
    simp only [startsOther, Bool.or_eq_false_iff] at hc
    exact hc.1.1.1.1.2

theorem cut_text
    {parts : List TextPart} {cs : List Char}
    (h : PartsSpelled parts cs)
    (rest : List Char) :
    cut [] ('"' :: (cs ++ ['"']) ++ rest) =
      .text ((TextPart.assemble [] parts).map String.ofList) :: cut [] rest := by
  have hscalar : scalar? ('"' :: (cs ++ ['"']) ++ rest) =
      some (.text ((TextPart.assemble [] parts).map String.ofList), rest) := by
    rw [List.cons_append, List.append_assoc, List.singleton_append, scalar?,
      textFrom?_append h [] rest]
    rfl
  exact cut_first_scalar hscalar rfl rfl

/-- The text after the lexemes does not go on with the last of them. -/
def PartsFrom (rest : List Char) (ls : List Lexeme) : Prop :=
  ∀ l ∈ ls.getLast?, l.isMark = true ∨ Numeral.Parts rest

/-- The text after a number does not go on with it, if the next lexeme is a mark. -/
theorem Laid.parts
    {ls : List Lexeme} {cs rest : List Char}
    (h : Laid ls cs)
    (hls : Marked ls)
    (hrest : ls = [] → Numeral.Parts rest) :
    Numeral.Parts (cs ++ rest) := by
  cases h with
  | nil => exact hrest rfl
  | @space c _ _ hc h =>
      simp only [isSpace, Bool.or_eq_true, decide_eq_true_eq] at hc
      rcases hc with ((rfl | rfl) | rfl) | rfl <;> rfl
  | lexeme hl h =>
      cases hl with
      | mark hmark =>
          rcases eq_of_mark? hmark with rfl | rfl | rfl | rfl | rfl | rfl <;> rfl
      | null => simp [Marked, isMark] at hls
      | true => simp [Marked, isMark] at hls
      | false => simp [Marked, isMark] at hls
      | number h => simp [Marked, isMark] at hls
      | text h => simp [Marked, isMark] at hls

/-- Before any text that does not go on with the last of them, the lexemes are cut off. -/
theorem Laid.cut_append
    {ls : List Lexeme} {cs rest : List Char}
    (h : Laid ls cs)
    (hls : Separated ls)
    (hrest : PartsFrom rest ls) :
    cut [] (cs ++ rest) = ls ++ cut [] rest := by
  induction h with
  | nil => rfl
  | space hc h ih => rw [List.cons_append, cut_space hc, ih hls hrest]
  | @lexeme l ls spelling cs hl h ih =>
      obtain ⟨hnext, hmore⟩ := hls
      have hlast : PartsFrom rest ls := by
        intro last hlast
        refine hrest last ?_
        rw [List.getLast?_cons, Option.mem_def.mp hlast]
        rfl
      rw [List.append_assoc, List.cons_append, ← ih hmore hlast]
      cases hl with
      | mark hmark => exact cut_mark (isSpace_of_mark? hmark) hmark _
      | null => exact cut_first_scalar rfl rfl rfl
      | true => exact cut_first_scalar rfl rfl rfl
      | false => exact cut_first_scalar rfl rfl rfl
      | @number n _ hn =>
          have hmarked : Marked ls := hnext.resolve_left (by simp [isMark])
          refine cut_numeral hn (h.parts hmarked ?_)
          rintro rfl
          exact (hrest (.number n) rfl).resolve_left (by simp [isMark])
      | text ht => exact cut_text ht _

/-- A text is cut into the lexemes that it lays out. -/
theorem Laid.cut_eq
    {ls : List Lexeme} {cs : List Char}
    (h : Laid ls cs)
    (hls : Separated ls) :
    cut [] cs = ls := by
  have hcut := h.cut_append hls fun l _ => .inr (Text.stops_nil _)
  rwa [cut, List.reverse_nil, List.append_nil, List.append_nil] at hcut

/-! ## The layout of what is cut off -/

theorem exists_spelled_of_scalar?
    {l : Lexeme} {cs rest : List Char}
    (h : scalar? cs = some (l, rest)) :
    ∃ used, cs = used ++ rest ∧ l.Spelled used := by
  unfold scalar? at h
  split at h
  · obtain ⟨⟨parts, after⟩, htext, heq⟩ := Option.map_eq_some_iff.mp h
    obtain ⟨rfl, rfl⟩ := Prod.mk.inj heq
    obtain ⟨new, used, rfl, rfl, hspelled⟩ := exists_spelled_of_textFrom? htext
    exact ⟨_, by simp, .text hspelled⟩
  · obtain ⟨rfl, rfl⟩ := Prod.mk.inj (Option.some.inj h)
    exact ⟨_, rfl, .true⟩
  · obtain ⟨rfl, rfl⟩ := Prod.mk.inj (Option.some.inj h)
    exact ⟨_, rfl, .false⟩
  · obtain ⟨rfl, rfl⟩ := Prod.mk.inj (Option.some.inj h)
    exact ⟨_, rfl, .null⟩
  · obtain ⟨⟨n, after⟩, hnumber, heq⟩ := Option.map_eq_some_iff.mp h
    obtain ⟨rfl, rfl⟩ := Prod.mk.inj heq
    obtain ⟨used, rfl, hspelled⟩ := Numeral.exists_spelled_of_from? hnumber
    exact ⟨used, rfl, .number hspelled⟩

/-- A text lays out the lexemes that it is cut into. -/
theorem laid_cut
    {cs : List Char}
    (h : .invalid ∉ cut [] cs) :
    Laid (cut [] cs) cs := by
  -- the lexemes that have been cut off before do not matter
  have hall (done : List Lexeme) : Laid (cut [] cs) cs := by
    fun_induction cut done cs with
    | case1 done =>
        rw [cut]
        exact .nil
    | case2 done c cs hspace ih =>
        rw [cut_space hspace] at h ⊢
        exact .space hspace (ih h)
    | case3 done c cs hspace l hmark ih =>
        rw [cut_mark (by simpa using hspace) hmark] at h ⊢
        exact .lexeme (.mark hmark) (ih (List.not_mem_of_not_mem_cons h))
    | case4 done c cs hspace hmark l rest hcut ih =>
        obtain ⟨used, hused, hspelled⟩ := exists_spelled_of_scalar? hcut
        rw [cut_first_scalar hcut (by simpa using hspace) (by simpa using hmark)] at h ⊢
        rw [hused]
        exact .lexeme hspelled (ih (List.not_mem_of_not_mem_cons h))
    | case5 done c cs hspace hmark hcut =>
        rw [cut_invalid (by simpa using hspace) hmark hcut] at h
        simp at h
  exact hall []

theorem laid_of_ofText
    {s : String} {ls : List Lexeme}
    (h : Lexeme.ofText s = ls)
    (hvalid : .invalid ∉ ls) :
    Laid ls s.toList := by
  subst h
  exact laid_cut hvalid

end Lexeme

namespace Document

open Lexeme

theorem marked_itemLexemes
    (items : List Document) {rest : List Lexeme}
    (h : Marked rest) :
    Marked (itemLexemes items ++ rest) := by
  cases items with
  | nil => exact h
  | cons d items => rfl

theorem marked_memberLexemes
    (members : List (Option String × Document)) {rest : List Lexeme}
    (h : Marked rest) :
    Marked (memberLexemes members ++ rest) := by
  cases members with
  | nil => exact h
  | cons m members => rfl

mutual

theorem separated_lexemes
    (d : Document) {rest : List Lexeme} (hmarked : Marked rest) (hrest : Separated rest) :
    Separated (d.lexemes ++ rest) := by
  match d with
  | null => exact ⟨.inr hmarked, hrest⟩
  | bool b => exact ⟨.inr hmarked, hrest⟩
  | number n => exact ⟨.inr hmarked, hrest⟩
  | text content => exact ⟨.inr hmarked, hrest⟩
  | list [] closed => exact ⟨.inl rfl, .inl rfl, hrest⟩
  | list (e :: items) closed =>
      rw [lexemes, List.cons_append, List.append_assoc, List.append_assoc]
      exact ⟨.inl rfl, separated_lexemes e (marked_itemLexemes items rfl)
        (separated_itemLexemes items rfl ⟨.inl rfl, hrest⟩)⟩
  | object [] closed => exact ⟨.inl rfl, .inl rfl, hrest⟩
  | object ((key, e) :: members) closed =>
      rw [lexemes, List.cons_append, List.cons_append, List.cons_append, List.append_assoc,
        List.append_assoc]
      exact ⟨.inl rfl, .inr rfl, .inl rfl, separated_lexemes e (marked_memberLexemes members rfl)
        (separated_memberLexemes members rfl ⟨.inl rfl, hrest⟩)⟩
  | broken => exact hrest

theorem separated_itemLexemes
    (items : List Document) {rest : List Lexeme} (hmarked : Marked rest) (hrest : Separated rest) :
    Separated (itemLexemes items ++ rest) := by
  match items with
  | [] => exact hrest
  | d :: items =>
      rw [itemLexemes, List.cons_append, List.append_assoc]
      exact ⟨.inl rfl, separated_lexemes d (marked_itemLexemes items hmarked)
        (separated_itemLexemes items hmarked hrest)⟩

theorem separated_memberLexemes
    (members : List (Option String × Document)) {rest : List Lexeme} (hmarked : Marked rest)
    (hrest : Separated rest) :
    Separated (memberLexemes members ++ rest) := by
  match members with
  | [] => exact hrest
  | (key, d) :: members =>
      rw [memberLexemes, List.cons_append, List.cons_append, List.cons_append, List.append_assoc]
      exact ⟨.inl rfl, .inr rfl, .inl rfl,
        separated_lexemes d (marked_memberLexemes members hmarked)
          (separated_memberLexemes members hmarked hrest)⟩

end

theorem lexemes_of_laid
    {d : Document} {s : String}
    (h : Laid d.lexemes s.toList) :
    Lexeme.ofText s = d.lexemes := by
  have hseparated : Separated (d.lexemes ++ []) := d.separated_lexemes trivial trivial
  rw [List.append_nil] at hseparated
  exact h.cut_eq hseparated

/-- However it is laid out, a complete document is read as itself. -/
theorem ofText_of_laid
    {d : Document} {s : String}
    (hd : d.Complete)
    (h : Laid d.lexemes s.toList) :
    Document.ofText s = (d, []) := by
  have hread := read_lexemes d hd [] []
  rw [List.append_nil] at hread
  rw [Document.ofText, lexemes_of_laid h, hread]
  rfl

end Document
end Json
end Eligibility
