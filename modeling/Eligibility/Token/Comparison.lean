import Eligibility.Text.Blank
import Eligibility.Text.Word

/-!
# The comparison after a field name

Inside a rule a condition is a word, one comparison sign and an operand, with white space allowed
around the sign.  `comparison?` cuts sign and operand off the text that follows a word.

**Operands.**  A text between single quotes; a number, which is an optional minus sign, digits and
optionally a point and digits, and which ends where no word goes on; or a word.  A number gives up
its fraction if a word goes on after it, since the point already ends the digits before it.

**Results.**
* `append_of_comparison?`: what is cut off and what is left make up the text;
* `length_lt_of_comparison?`: something is always cut off.
-/

namespace Eligibility
namespace Token

open Text

/-- Whether a text goes on with a word character. -/
def startsWord : List Char → Bool
  | [] => false
  | c :: _ => isWord c

/-- A point and digits that no word character follows. -/
def fraction? : List Char → Option (List Char × List Char)
  | '.' :: rest =>
    let digits := rest.takeWhile isDigit
    let after := rest.dropWhile isDigit
    if digits = [] || startsWord after then none else some ('.' :: digits, after)
  | _ => none

/-- Digits with an optional fraction that no word character follows. -/
def unsigned? (cs : List Char) : Option (List Char × List Char) :=
  let digits := cs.takeWhile isDigit
  let after := cs.dropWhile isDigit
  if digits = [] then none
  else match fraction? after with
    | some (fraction, rest) => some (digits ++ fraction, rest)
    | none => if startsWord after then none else some (digits, after)

/-- A number with an optional minus sign. -/
def number? : List Char → Option (List Char × List Char)
  | '-' :: rest => (unsigned? rest).map fun cut => ('-' :: cut.1, cut.2)
  | cs => unsigned? cs

/-- A longest word. -/
def word? (cs : List Char) : Option (List Char × List Char) :=
  if startsWord cs then some (cs.takeWhile isWord, cs.dropWhile isWord) else none

/-- A text between single quotes. -/
def quotation? : List Char → Option (List Char × List Char)
  | '\'' :: rest =>
    match rest.dropWhile (· ≠ '\'') with
    | quote :: after => some ('\'' :: (rest.takeWhile (· ≠ '\'') ++ [quote]), after)
    | [] => none
  | _ => none

/-- The operand at the start of a text. -/
def operand? (cs : List Char) : Option (List Char × List Char) :=
  (quotation? cs).or ((number? cs).or (word? cs))

/-- Whether the character is one of the three comparison signs. -/
def isSign (c : Char) : Bool :=
  c = '<' || c = '>' || c = '='

/-- The comparison at the start of a text, with the white space around its sign. -/
def comparison? (cs : List Char) : Option (List Char × List Char) :=
  match cs.dropWhile isBlank with
  | [] => none
  | sign :: rest =>
    if isSign sign then
      (operand? (rest.dropWhile isBlank)).map fun cut =>
        (cs.takeWhile isBlank ++ sign :: (rest.takeWhile isBlank ++ cut.1), cut.2)
    else none

/-- A fraction is cut off: what it takes and what it leaves are the text. -/
theorem append_of_fraction? {cs cut rest : List Char} (h : fraction? cs = some (cut, rest)) :
    cut ++ rest = cs := by
  unfold fraction? at h
  split at h
  · simp only at h
    split at h
    · simp at h
    · simp only [Option.some.injEq, Prod.mk.injEq] at h
      rw [← h.1, ← h.2, List.cons_append, List.takeWhile_append_dropWhile]
  · simp at h

theorem append_of_unsigned? {cs cut rest : List Char} (h : unsigned? cs = some (cut, rest)) :
    cut ++ rest = cs := by
  unfold unsigned? at h
  simp only at h
  split at h
  · simp at h
  · split at h
    · rename_i fraction after hf
      simp only [Option.some.injEq, Prod.mk.injEq] at h
      rw [← h.1, ← h.2, List.append_assoc, append_of_fraction? hf,
        List.takeWhile_append_dropWhile]
    · split at h
      · simp at h
      · simp only [Option.some.injEq, Prod.mk.injEq] at h
        rw [← h.1, ← h.2, List.takeWhile_append_dropWhile]

/-- A number, with or without its minus sign, is cut off the text. -/
theorem append_of_number? {cs cut rest : List Char} (h : number? cs = some (cut, rest)) :
    cut ++ rest = cs := by
  unfold number? at h
  split at h
  · obtain ⟨inner, hinner, heq⟩ := Option.map_eq_some_iff.1 h
    simp only [Prod.mk.injEq] at heq
    rw [← heq.1, ← heq.2, List.cons_append, append_of_unsigned? hinner]
  · exact append_of_unsigned? h

theorem append_of_word? {cs cut rest : List Char} (h : word? cs = some (cut, rest)) :
    cut ++ rest = cs := by
  unfold word? at h
  split at h
  · simp only [Option.some.injEq, Prod.mk.injEq] at h
    rw [← h.1, ← h.2, List.takeWhile_append_dropWhile]
  · simp at h

/-- A quotation is cut off together with both of its quotes. -/
theorem append_of_quotation? {cs cut rest : List Char} (h : quotation? cs = some (cut, rest)) :
    cut ++ rest = cs := by
  unfold quotation? at h
  split at h
  · rename_i inner
    split at h
    · rename_i quote after hq
      simp only [Option.some.injEq, Prod.mk.injEq] at h
      have hsplit := List.takeWhile_append_dropWhile (p := fun c => decide (c ≠ '\'')) (l := inner)
      rw [hq] at hsplit
      rw [← h.1, ← h.2]
      simpa using hsplit
    · simp at h
  · simp at h

/-- An operand of any of the three kinds is cut off the text. -/
theorem append_of_operand? {cs cut rest : List Char} (h : operand? cs = some (cut, rest)) :
    cut ++ rest = cs := by
  simp only [operand?, Option.or_eq_some_iff] at h
  rcases h with h | ⟨_, h | ⟨_, h⟩⟩
  · exact append_of_quotation? h
  · exact append_of_number? h
  · exact append_of_word? h

/-- A comparison is cut off the text, the white space around its sign included. -/
theorem append_of_comparison? {cs cut rest : List Char} (h : comparison? cs = some (cut, rest)) :
    cut ++ rest = cs := by
  unfold comparison? at h
  split at h
  · simp at h
  · rename_i sign after hs
    split at h
    · obtain ⟨inner, hinner, heq⟩ := Option.map_eq_some_iff.1 h
      simp only [Prod.mk.injEq] at heq
      have hsplit := List.takeWhile_append_dropWhile (p := isBlank) (l := cs)
      have hafter := List.takeWhile_append_dropWhile (p := isBlank) (l := after)
      rw [hs] at hsplit
      rw [← heq.1, ← heq.2]
      simp only [List.append_assoc, List.cons_append]
      rw [append_of_operand? hinner, hafter, hsplit]
    · simp at h

/-- A comparison takes at least its sign, so that the scan gets on. -/
theorem length_lt_of_comparison? {cs cut rest : List Char}
    (h : comparison? cs = some (cut, rest)) : rest.length < cs.length := by
  have happend := append_of_comparison? h
  have hcut : cut ≠ [] := by
    unfold comparison? at h
    split at h
    · simp at h
    · split at h
      · obtain ⟨inner, _, heq⟩ := Option.map_eq_some_iff.1 h
        simp only [Prod.mk.injEq] at heq
        rw [← heq.1]
        simp
      · simp at h
  have hpos : 0 < cut.length := List.length_pos_iff.2 hcut
  rw [← happend, List.length_append]
  omega

end Token
end Eligibility
