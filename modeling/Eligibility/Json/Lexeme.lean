import Eligibility.Json.Numeral

/-!
# Lexemes of a document

The text of a document is a sequence of marks, words, numbers and texts, with spaces, tabs, line
feeds and carriage returns between them.  The sequence stops with `invalid` where the text first
stops being made of lexemes, so that whoever reads it knows all that came before.

**Texts.**  Between double quotes, a character is itself or an escape.  An escape of a surrogate
is a code unit and stands for a character only together with its other half; a text with half a
character has no content, which matters only to those who ask for the content.

**Results.**
* `cut_append`: what is cut off a text does not depend on what has been cut off before.
-/

namespace Eligibility
namespace Json

/-- A lexeme. -/
inductive Lexeme
  | openList
  | closeList
  | openObject
  | closeObject
  | comma
  | colon
  | null
  | bool (value : Bool)
  | number (numeral : Numeral)
  /-- A text; one with half a character has no content. -/
  | text (content : Option String)
  /-- The place where the text stops being made of lexemes. -/
  | invalid
deriving DecidableEq, Inhabited, Repr

/-- A part of a text between quotes: a character, or half of one. -/
inductive TextPart
  | char (c : Char)
  | half (unit : Nat)
deriving DecidableEq, Inhabited, Repr

namespace TextPart

/-- The part that a code unit stands for. -/
def ofUnit (unit : Nat) : TextPart :=
  if 0xD800 ≤ unit ∧ unit < 0xE000 then half unit else char (Char.ofNat unit)

/-- The character made of a first and a second half. -/
def pair? (first second : Nat) : Option Char :=
  if first < 0xDC00 ∧ 0xDC00 ≤ second then
    some (Char.ofNat (0x10000 + (first - 0xD800) * 0x400 + (second - 0xDC00)))
  else none

/-- The characters that the parts make up, after those already known in reverse; every half needs
its other half beside it. -/
def assemble (done : List Char) : List TextPart → Option (List Char)
  | [] => some done.reverse
  | char c :: parts => assemble (c :: done) parts
  | half first :: half second :: parts =>
    match pair? first second with
    | some c => assemble (c :: done) parts
    | none => none
  | half _ :: _ => none

end TextPart

namespace Lexeme

/-- The value of a digit in base sixteen. -/
def hexDigit? (c : Char) : Option Nat :=
  if c.isDigit then some (c.toNat - '0'.toNat)
  else if 'a' ≤ c ∧ c ≤ 'f' then some (c.toNat - 'a'.toNat + 10)
  else if 'A' ≤ c ∧ c ≤ 'F' then some (c.toNat - 'A'.toNat + 10)
  else none

/-- The code unit that four digits in base sixteen spell. -/
def unit? (a b c d : Char) : Option Nat :=
  match hexDigit? a, hexDigit? b, hexDigit? c, hexDigit? d with
  | some a, some b, some c, some d => some (((a * 16 + b) * 16 + c) * 16 + d)
  | _, _, _, _ => none

/-- The character that a mark after a backslash stands for. -/
def escaped? (c : Char) : Option Char :=
  if c = '"' ∨ c = '\\' ∨ c = '/' then some c
  else if c = 'b' then some '\x08'
  else if c = 'f' then some '\x0c'
  else if c = 'n' then some '\n'
  else if c = 'r' then some '\r'
  else if c = 't' then some '\t'
  else none

/-- The parts of a text up to its closing quote, after those already read in reverse, and what
follows the quote. -/
def textFrom? (done : List TextPart) : List Char → Option (List TextPart × List Char)
  | [] => none
  | '"' :: rest => some (done.reverse, rest)
  | '\\' :: 'u' :: a :: b :: c :: d :: rest =>
    match unit? a b c d with
    | some unit => textFrom? (TextPart.ofUnit unit :: done) rest
    | none => none
  | '\\' :: mark :: rest =>
    match escaped? mark with
    | some c => textFrom? (.char c :: done) rest
    | none => none
  | c :: rest =>
    if c = '\\' ∨ c.toNat < 0x20 then none else textFrom? (.char c :: done) rest

/-- Whether the character may stand between lexemes. -/
def isSpace (c : Char) : Bool :=
  c = ' ' || c = '\t' || c = '\n' || c = '\r'

/-- The mark that is a lexeme by itself. -/
def mark? (c : Char) : Option Lexeme :=
  if c = '[' then some openList
  else if c = ']' then some closeList
  else if c = '\x7b' then some openObject
  else if c = '\x7d' then some closeObject
  else if c = ',' then some comma
  else if c = ':' then some colon
  else none

/-- A text or a number split off a text, or one of the three words. -/
def scalar? : List Char → Option (Lexeme × List Char)
  | '"' :: rest =>
    (textFrom? [] rest).map fun cut =>
      (text ((TextPart.assemble [] cut.1).map String.ofList), cut.2)
  | 't' :: 'r' :: 'u' :: 'e' :: rest => some (bool true, rest)
  | 'f' :: 'a' :: 'l' :: 's' :: 'e' :: rest => some (bool false, rest)
  | 'n' :: 'u' :: 'l' :: 'l' :: rest => some (null, rest)
  | cs => (Numeral.from? cs).map fun cut => (number cut.1, cut.2)

/-- What is left of a text after its closing mark is no longer than what the reader was given. -/
theorem length_le_of_textFrom? {done parts : List TextPart} {cs rest : List Char}
    (h : textFrom? done cs = some (parts, rest)) : rest.length ≤ cs.length := by
  fun_induction textFrom? done cs with
  | case1 => simp at h
  | case2 =>
    simp only [Option.some.injEq, Prod.mk.injEq] at h
    simp [← h.2]
  | case3 _ _ _ _ _ _ _ _ ih => have := ih h; simp only [List.length_cons]; omega
  | case4 => simp at h
  | case5 _ _ _ _ _ _ ih => have := ih h; simp only [List.length_cons]; omega
  | case6 => simp at h
  | case7 => simp at h
  | case8 _ _ _ _ _ _ _ ih => have := ih h; simp only [List.length_cons]; omega

/-- A scalar takes at least one character. -/
theorem length_lt_of_scalar? {cs rest : List Char} {l : Lexeme}
    (h : scalar? cs = some (l, rest)) : rest.length < cs.length := by
  unfold scalar? at h
  split at h
  · obtain ⟨cut, hcut, heq⟩ := Option.map_eq_some_iff.1 h
    simp only [Prod.mk.injEq] at heq
    have := length_le_of_textFrom? (show textFrom? [] _ = some (cut.1, cut.2) from hcut)
    rw [← heq.2]
    simp only [List.length_cons]
    omega
  · simp only [Option.some.injEq, Prod.mk.injEq] at h
    simp only [← h.2, List.length_cons]
    omega
  · simp only [Option.some.injEq, Prod.mk.injEq] at h
    simp only [← h.2, List.length_cons]
    omega
  · simp only [Option.some.injEq, Prod.mk.injEq] at h
    simp only [← h.2, List.length_cons]
    omega
  · obtain ⟨cut, hcut, heq⟩ := Option.map_eq_some_iff.1 h
    simp only [Prod.mk.injEq] at heq
    rw [← heq.2]
    exact Numeral.length_lt_of_from? (show Numeral.from? _ = some (cut.1, cut.2) from hcut)

/-- Cuts a text into lexemes, after those already cut off. -/
def cut (done : List Lexeme) : List Char → List Lexeme
  | [] => done.reverse
  | c :: cs =>
    if isSpace c then cut done cs
    else match mark? c with
      | some l => cut (l :: done) cs
      | none =>
        match _hcut : scalar? (c :: cs) with
        | some (l, rest) => cut (l :: done) rest
        | none => (invalid :: done).reverse
termination_by cs => cs.length
decreasing_by
  · simp
  · simp
  · exact length_lt_of_scalar? _hcut

theorem cut_scalar {c : Char} {cs rest : List Char} {l : Lexeme} (hspace : isSpace c = false)
    (hmark : mark? c = none) (hcut : scalar? (c :: cs) = some (l, rest)) (done : List Lexeme) :
    cut done (c :: cs) = cut (l :: done) rest := by
  rw [cut, if_neg (by simp [hspace])]
  simp only [hmark]
  split
  · rename_i l' rest' hcut'
    rw [hcut, Option.some.injEq, Prod.mk.injEq] at hcut'
    rw [hcut'.1, hcut'.2]
  · rename_i hcut'
    rw [hcut] at hcut'
    simp at hcut'

theorem cut_invalid {c : Char} {cs : List Char} (hspace : isSpace c = false)
    (hmark : mark? c = none) (hcut : scalar? (c :: cs) = none) (done : List Lexeme) :
    cut done (c :: cs) = (invalid :: done).reverse := by
  rw [cut, if_neg (by simp [hspace])]
  simp only [hmark]
  split
  · rename_i l' rest' hcut'
    rw [hcut] at hcut'
    simp at hcut'
  · rfl

/-- Lexemes that are already cut off only stand in front of the result. -/
theorem cut_append (done earlier : List Lexeme) (cs : List Char) :
    cut (done ++ earlier) cs = earlier.reverse ++ cut done cs := by
  fun_induction cut done cs with
  | case1 done => rw [cut, List.reverse_append]
  | case2 done c cs hspace ih => rw [cut, if_pos hspace, ih]
  | case3 done c cs hspace l hmark ih =>
    rw [cut, if_neg hspace]
    simp only [hmark]
    rw [← List.cons_append, ih]
  | case4 done c cs hspace hmark l rest hcut ih =>
    rw [cut_scalar (by simpa using hspace) hmark hcut, ← List.cons_append, ih]
  | case5 done c cs hspace hmark hcut =>
    rw [cut_invalid (by simpa using hspace) hmark hcut, ← List.cons_append, List.reverse_append]

/-- The lexemes of a text. -/
def ofText (s : String) : List Lexeme :=
  cut [] s.toList

end Lexeme
end Json
end Eligibility
