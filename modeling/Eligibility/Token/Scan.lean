import Eligibility.Fault
import Eligibility.Token.Basic
import Eligibility.Token.Comparison

/-!
# Cutting a rule text into tokens

At a word the longest word is taken.  With a comparison after it, it is the field of a condition;
without, it is a connective if it spells one, and else loose.  Parentheses are tokens, and all other
characters are loose.  No token starts inside a word, so nothing is tried there.

**Lenient and strict.**  Loose text is dropped, or, in strict mode, refused where it holds more than
white space.

**Results.**
* `cut_append`: what is cut off a text does not depend on what has been cut off before;
* `ruleText_cut`: the fragments of a text, put together again, are the text.
-/

namespace Eligibility
namespace Token

open Text

/-- Cuts a text into fragments, after those already cut off. -/
def cut (done : List Fragment) : List Char → List Fragment
  | [] => done.reverse
  | c :: cs =>
    if c = '(' then cut (.token opening :: done) cs
    else if c = ')' then cut (.token closing :: done) cs
    else if isWord c then
      match _hcut : comparison? (cs.dropWhile isWord) with
      | some (comparison, rest) =>
        let text := String.ofList (c :: (cs.takeWhile isWord ++ comparison))
        cut (.token (condition text) :: done) rest
      | none =>
        let word := c :: cs.takeWhile isWord
        match Connective.ofWord? (String.ofList word) with
        | some k => cut (.token (connective k) :: done) (cs.dropWhile isWord)
        | none => cut ((word.map Fragment.loose).reverse ++ done) (cs.dropWhile isWord)
    else cut (.loose c :: done) cs
termination_by cs => cs.length
decreasing_by
  · simp
  · simp
  · have hrest := length_lt_of_comparison? _hcut
    have hdrop := (List.dropWhile_sublist isWord (l := cs)).length_le
    simp only [List.length_cons]; omega
  · have hdrop := (List.dropWhile_sublist isWord (l := cs)).length_le
    simp only [List.length_cons]; omega
  · have hdrop := (List.dropWhile_sublist isWord (l := cs)).length_le
    simp only [List.length_cons]; omega
  · simp

/-- The fragments of a rule text. -/
def fragments (s : String) : List Fragment :=
  cut [] s.toList

theorem ne_opening_of_isWord {c : Char} (h : isWord c = true) : c ≠ '(' := by
  rintro rfl
  exact absurd h (by decide)

theorem ne_closing_of_isWord {c : Char} (h : isWord c = true) : c ≠ ')' := by
  rintro rfl
  exact absurd h (by decide)

/-- A word with a comparison behind it is a condition, whatever the word says. -/
theorem cut_condition {c : Char} {cs comparison rest : List Char} (hword : isWord c = true)
    (hcut : comparison? (cs.dropWhile isWord) = some (comparison, rest)) (done : List Fragment) :
    cut done (c :: cs) =
      cut (.token (condition (String.ofList (c :: (cs.takeWhile isWord ++ comparison)))) :: done)
        rest := by
  rw [cut, if_neg (ne_opening_of_isWord hword), if_neg (ne_closing_of_isWord hword), if_pos hword]
  split
  · rename_i comparison' rest' hcut'
    rw [hcut, Option.some.injEq, Prod.mk.injEq] at hcut'
    rw [hcut'.1, hcut'.2]
  · rename_i hcut'
    rw [hcut] at hcut'
    simp at hcut'

/-- A word with no comparison behind it is a connective, or its characters are loose. -/
theorem cut_word {c : Char} {cs : List Char} (hword : isWord c = true)
    (hcut : comparison? (cs.dropWhile isWord) = none) (done : List Fragment) :
    cut done (c :: cs) =
      match Connective.ofWord? (String.ofList (c :: cs.takeWhile isWord)) with
      | some k => cut (.token (connective k) :: done) (cs.dropWhile isWord)
      | none =>
        cut (((c :: cs.takeWhile isWord).map Fragment.loose).reverse ++ done)
          (cs.dropWhile isWord) := by
  rw [cut, if_neg (ne_opening_of_isWord hword), if_neg (ne_closing_of_isWord hword), if_pos hword]
  split
  · rename_i hcut'
    rw [hcut] at hcut'
    simp at hcut'
  · rfl

/-- Fragments that are already cut off only stand in front of the result. -/
theorem cut_append (done earlier : List Fragment) (cs : List Char) :
    cut (done ++ earlier) cs = earlier.reverse ++ cut done cs := by
  fun_induction cut done cs with
  | case1 done => rw [cut, List.reverse_append]
  | case2 done cs ih => rw [cut, if_pos rfl, ← List.cons_append, ih]
  | case3 done cs hc ih => rw [cut, if_neg hc, if_pos rfl, ← List.cons_append, ih]
  | case4 done c cs hc hc' hword comparison rest hcut text ih =>
    rw [cut_condition hword hcut, ← List.cons_append, ih]
  | case5 done c cs hc hc' hword hcut word k hk ih =>
    simp only [cut_word hword hcut, show Connective.ofWord? (String.ofList
      (c :: cs.takeWhile isWord)) = some k from hk]
    rw [← List.cons_append, ih]
  | case6 done c cs hc hc' hword hcut word hk ih =>
    simp only [cut_word hword hcut, show Connective.ofWord? (String.ofList
      (c :: cs.takeWhile isWord)) = none from hk]
    rw [← List.append_assoc, ih]
  | case7 done c cs hc hc' hword ih =>
    rw [cut, if_neg hc, if_neg hc', if_neg hword, ← List.cons_append, ih]

/-- No character is lost: the fragments spell the text, those cut off before it in front. -/
theorem ruleText_cut (done : List Fragment) (cs : List Char) :
    (cut done cs).flatMap Fragment.ruleText = done.reverse.flatMap Fragment.ruleText ++ cs := by
  fun_induction cut done cs with
  | case1 done => simp
  | case2 done cs ih => rw [ih]; simp [Fragment.ruleText, ruleText]
  | case3 done cs hc ih => rw [ih]; simp [Fragment.ruleText, ruleText]
  | case4 done c cs hc hc' hword comparison rest hcut text ih =>
    have hsplit := List.takeWhile_append_dropWhile (p := isWord) (l := cs)
    rw [← append_of_comparison? hcut, ← List.append_assoc] at hsplit
    rw [ih, ← hsplit]
    simp [Fragment.ruleText, ruleText, text]
  | case5 done c cs hc hc' hword hcut word k hk ih =>
    have hsplit := List.takeWhile_append_dropWhile (p := isWord) (l := cs)
    have hk' : k.word.toList = word := by
      rw [← Connective.ofWord?_eq_some_iff.1 hk, String.toList_ofList]
    rw [ih]
    simp only [List.reverse_cons, List.flatMap_append, List.flatMap_cons, List.flatMap_nil,
      Fragment.ruleText, ruleText, hk', word, List.append_nil, List.append_assoc,
      List.cons_append, hsplit]
  | case6 done c cs hc hc' hword hcut word hk ih =>
    have hsplit := List.takeWhile_append_dropWhile (p := isWord) (l := cs)
    rw [ih, List.reverse_append, List.reverse_reverse, List.flatMap_append,
      Fragment.flatMap_ruleText_loose]
    simp only [word, List.append_assoc, List.cons_append, hsplit]
  | case7 done c cs hc hc' hword ih => rw [ih]; simp [Fragment.ruleText]

/-- Loose text without the white space around it, if any is left. -/
def stray? (loose : List Char) : Option (List Char) :=
  let text := trim loose
  if text = [] then none else some text

/-- The first stray text among the fragments, where `loose` holds the characters since the last
token in reverse. -/
def firstStray? (loose : List Char) : List Fragment → Option (List Char)
  | [] => stray? loose.reverse
  | .loose c :: more => firstStray? (c :: loose) more
  | .token _ :: more => (stray? loose.reverse).or (firstStray? [] more)

/-- The tokens of a rule text; in strict mode only white space may stand between them. -/
def ofText (strict : Bool) (s : String) : Except Fault (List Token) :=
  let cuts := fragments s
  match if strict then firstStray? [] cuts else none with
  | some text => .error (.strayText (String.ofList text))
  | none =>
    match cuts.filterMap Fragment.token? with
    | [] => .error .noTokens
    | tokens => .ok tokens

end Token
end Eligibility
