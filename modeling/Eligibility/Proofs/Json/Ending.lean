import Eligibility.Proofs.Json.OpenContainers

/-!
# Where a document ends

A list or an object ends with the mark that closes it, so whatever is appended to its text is left over
when it has been read.  Only spaces, tabs, line feeds and carriage returns leave nothing over.

**Results.**
* `Finishes`: the lexemes of a document that is read to its end, one allowed step after the other;
* `Finishes.read_append`: more lexemes are left over;
* `Finishes.separated`, `Finishes.last`: how the lexemes of a document lie beside one another and end;
* `ofText_append`: what is appended to the text of a list or an object is left over;
* `ofText_eq_nil_iff`: the texts that leave nothing over.
-/

namespace Eligibility
namespace Json

open Lexeme (cut Laid Marked Separated)

namespace Document

/-- Whether the document is a list or an object. -/
def IsContainer : Document → Prop
  | list _ _ | object _ _ => True
  | _ => False

/-! ## Lexemes that are read to the end -/

/-- Taken one after the other from a place on, the lexemes finish a document. -/
inductive Finishes (d : Document) : List Open → Expected → List Lexeme → Prop
  | nil : Finishes d [] (.after d) []
  | cons {opened opened' : List Open} {expected expected' : Expected} {l : Lexeme}
      {ls : List Lexeme}
      (h : advance? opened expected l = some (expected', opened'))
      (hmore : Finishes d opened' expected' ls) :
      Finishes d opened expected (l :: ls)

variable {d : Document} {opened opened' : List Open} {expected expected' : Expected} {l : Lexeme}
  {ls : List Lexeme}

theorem finishes_of_read
    (h : read opened expected ls = (d, [])) :
    Finishes d opened expected ls := by
  induction ls generalizing opened expected with
  | nil =>
      rw [read.eq_def] at h
      simp only at h
      split at h
      · obtain ⟨rfl, -⟩ := Prod.mk.inj h
        exact .nil
      · simp at h
  | cons l ls ih =>
      rw [read.eq_def] at h
      simp only at h
      split at h
      · simp at h
      · split at h
        · rename_i hnext
          exact .cons hnext (ih h)
        · simp at h

/-- What follows the lexemes of a document is left over. -/
theorem Finishes.read_append
    (h : Finishes d opened expected ls)
    (more : List Lexeme) :
    read opened expected (ls ++ more) = (d, more) := by
  induction h with
  | nil => cases more <;> rfl
  | cons hnext _ ih => rw [List.cons_append, read_step hnext, ih]

/-! ## Their marks -/

/-- Whether only a mark is allowed next. -/
def AwaitsMark : Expected → Prop
  | .colon _ _ | .after _ => True
  | _ => False

theorem Takes.isMark
    (h : Takes opened expected l opened' expected')
    (hexpected : AwaitsMark expected) :
    l.isMark = true := by
  cases h with
  | scalar hstart => cases hstart <;> exact hexpected.elim
  | firstKey => exact hexpected.elim
  | key => exact hexpected.elim
  | _ => rfl

theorem Takes.isMark_or
    (h : Takes opened expected l opened' expected') :
    l.isMark = true ∨ AwaitsMark expected' := by
  cases h with
  | scalar => exact .inr trivial
  | firstKey => exact .inr trivial
  | key => exact .inr trivial
  | _ => exact .inl rfl

theorem Takes.ne_invalid
    (h : Takes opened expected l opened' expected') :
    l ≠ .invalid := by
  rintro rfl
  cases h with
  | scalar hstart hl => simp [ofLexeme?] at hl

theorem Finishes.marked
    (h : Finishes d opened expected ls)
    (hexpected : AwaitsMark expected) :
    Marked ls := by
  cases h with
  | nil => trivial
  | cons hnext _ => exact (takes_of_advance? hnext).isMark hexpected

/-- Of two neighbours among the lexemes of a document one is a mark. -/
theorem Finishes.separated
    (h : Finishes d opened expected ls) :
    Separated ls := by
  induction h with
  | nil => trivial
  | cons hnext hmore ih => exact ⟨(takes_of_advance? hnext).isMark_or.imp_right hmore.marked, ih⟩

theorem Finishes.valid
    (h : Finishes d opened expected ls) :
    .invalid ∉ ls := by
  induction h with
  | nil => exact List.not_mem_nil
  | cons hnext _ ih =>
      rw [List.mem_cons, not_or]
      exact ⟨(takes_of_advance? hnext).ne_invalid.symm, ih⟩

/-- Only a document that is a single lexeme does not end with a mark. -/
theorem Finishes.last
    (h : Finishes d opened expected ls)
    (hd : IsContainer d) :
    ∀ l ∈ ls.getLast?, l.isMark = true := by
  induction h with
  | nil => simp
  | @cons opened _ expected _ l ls hnext hmore ih =>
      cases hmore with
      | nil =>
          rintro _ ⟨⟩
          -- a lexeme that finishes the document closes it or is all of it
          cases takes_of_advance? hnext with
          | @scalar _ _ _ l _ hstart hl =>
              cases l <;> simp only [ofLexeme?, Option.some.injEq, reduceCtorEq] at hl
              all_goals
                subst hl
                exact hd.elim
          | _ => rfl
      | cons _ _ =>
          rw [List.getLast?_cons_cons]
          exact ih

/-! ## Texts -/

theorem finishes_of_ofText
    {s : String}
    (h : Document.ofText s = (d, [])) :
    Finishes d [] .value (Lexeme.ofText s) :=
  finishes_of_read h

theorem lexemes_append
    {s : String}
    (h : Document.ofText s = (d, []))
    (hd : IsContainer d)
    (t : String) :
    Lexeme.ofText (s ++ t) = Lexeme.ofText s ++ Lexeme.ofText t := by
  have hfinishes := finishes_of_ofText h
  have hlaid : Laid (Lexeme.ofText s) s.toList := Lexeme.laid_of_ofText rfl hfinishes.valid
  rw [Lexeme.ofText, String.toList_append]
  exact hlaid.cut_append hfinishes.separated fun l hl => .inl (hfinishes.last hd l hl)

/-- What is appended to the text of a list or an object is left over. -/
theorem ofText_append
    {s : String}
    (h : Document.ofText s = (d, []))
    (hd : IsContainer d)
    (t : String) :
    Document.ofText (s ++ t) = (d, Lexeme.ofText t) := by
  rw [Document.ofText, lexemes_append h hd]
  exact (finishes_of_ofText h).read_append _

end Document

/-! ## White space -/

/-- The text is made of the characters that may stand between lexemes. -/
def OnlySpace (t : String) : Prop :=
  ∀ c ∈ t.toList, c = ' ' ∨ c = '\t' ∨ c = '\n' ∨ c = '\r'

instance (t : String) : Decidable (OnlySpace t) :=
  List.decidableBAll _ t.toList

theorem cut_eq_nil_iff
    {cs : List Char} :
    cut [] cs = [] ↔ ∀ c ∈ cs, Lexeme.isSpace c = true := by
  induction cs with
  | nil => simp [cut]
  | cons c cs ih =>
      cases hspace : Lexeme.isSpace c with
      | true => simp [Lexeme.cut_space hspace, ih, hspace]
      | false =>
          have hne : cut [] (c :: cs) ≠ [] := by
            cases hmark : Lexeme.mark? c with
            | some l => simp [Lexeme.cut_mark hspace hmark]
            | none =>
                cases hscalar : Lexeme.scalar? (c :: cs) with
                | some found => simp [Lexeme.cut_first_scalar hscalar, hspace, hmark]
                | none => simp [Lexeme.cut_invalid hspace hmark hscalar]
          simp [hne, hspace]

/-- A text without lexemes holds white space alone. -/
theorem ofText_eq_nil_iff
    {t : String} :
    Lexeme.ofText t = [] ↔ OnlySpace t := by
  rw [Lexeme.ofText, cut_eq_nil_iff, OnlySpace]
  simp [Lexeme.isSpace, or_assoc]

/-- Texts that lay out the same lexemes nest alike. -/
theorem textNesting_of_ofText_eq
    {s t : String}
    (h : Lexeme.ofText t = Lexeme.ofText s)
    (hvalid : .invalid ∉ Lexeme.ofText s) :
    textNesting t = textNesting s := by
  have hs : Laid (Lexeme.ofText s) s.toList := Lexeme.laid_of_ofText rfl hvalid
  have ht : Laid (Lexeme.ofText s) t.toList := Lexeme.laid_of_ofText h hvalid
  rw [textNesting, textNesting, nestingFrom_laid hs (Nat.le_refl 0),
    nestingFrom_laid ht (Nat.le_refl 0)]

end Json
end Eligibility
