import Eligibility.Proofs.Condition.Signs
import Eligibility.Proofs.Token.Backtracking

/-!
# Conditions by their pattern

The text of a condition is white space, a word, white space, a run of signs, white space, an operand
and white space, and a text is split into these pieces by backtracking.

A reader need not search like that.  What a piece gives up goes to the piece after it, which cannot
start with it; so no piece is ever taken shorter, with one exception.  An operand may start with a
sign.  Where an operand comes after the run of signs, a shorter run makes it longer and does not help
it; where nothing comes after the run, the last sign becomes the operand.

**Results.**
* `rel_operand`, `rel_signs`: what becomes of an operand and of a run of signs;
* `ofText_eq_split?`: a condition is read as its pattern is matched;
* `ofText_eq_malformed_iff`: the texts that are refused are those that the pattern does not match.
-/

namespace Eligibility
namespace Condition

open Text
open Token (Pattern quotationPattern)
open Token.Pattern

/-- A text between quotes, or characters that are neither white space nor quotes. -/
def operandPattern : Pattern :=
  either quotationPattern (several isBare)

/-- The pieces of a condition: a word, a run of signs and an operand, with white space or none
around each. -/
def pieces : List Pattern :=
  [many isBlank, several isWord, many isBlank, several isSign, many isBlank, operandPattern,
    many isBlank]

/-- The literal of an operand. -/
def literalOf : List Char → Literal
  | '\'' :: more => .text (String.ofList more.dropLast)
  | cs => .ofBare (String.ofList cs)

variable {earlier cs : List Char}

/-! ## The operand -/

/-- White space at the end is all that is left. -/
theorem split?_blanks :
    split? [many isBlank] earlier cs =
      if trimStart cs = [] then some [cs.takeWhile isBlank] else none := by
  rw [split?_many fun _ _ _ _ => rfl, split?, ← trimStart]
  split <;> rfl

theorem split?_blanks_of_isBare
    {c : Char} {rest : List Char}
    (h : isBare c = true) :
    split? [many isBlank] earlier (c :: rest) = none := by
  have hblank : isBlank c = false := isBlank_of_isBare h
  rw [split?_blanks, trimStart, dropWhile_of_stops (by exact hblank)]
  rfl

theorem all_isBlank_iff : cs.all isBlank = true ↔ trimStart cs = [] := by
  rw [trimStart_eq_nil_iff, List.all_eq_true]

/-- The operand and the white space after it. -/
def IsOperand (l : Literal) (found : List (List Char)) : Prop :=
  ∃ operand rest, found = [operand, rest] ∧ literalOf operand = l

theorem first?_quotation
    {α : Type} {goOn : List Char → List Char → Option α} (rest : List Char) :
    quotationPattern.first? earlier ('\'' :: rest) goOn =
      match rest.dropWhile (· != '\'') with
      | _ :: after => goOn ('\'' :: (rest.takeWhile (· != '\'') ++ ['\''])) after
      | [] => none := by
  rw [quotationPattern, first?, first?, if_pos (by decide), first?, first?,
    longestFirst_of_stuck]
  · cases hdrop : rest.dropWhile (· != '\'') with
    | nil => rfl
    | cons c after =>
        have hc : (c == '\'') = true := by
          have hstop := stops_dropWhile (· != '\'') rest
          rw [hdrop] at hstop
          simpa using hstop
        obtain rfl := eq_of_beq hc
        rfl
  · intro cut c more hc
    have hne := List.mem_takeWhile_imp hc
    rw [first?, if_neg (by simpa using hne)]

theorem operand?_quote (rest : List Char) :
    operand? ('\'' :: rest) =
      match rest.dropWhile (· != '\'') with
      | _ :: after =>
        if trimStart after = [] then some (.text (String.ofList (rest.takeWhile (· != '\''))))
        else none
      | [] => none := by
  have hquote : (fun c : Char => decide (c ≠ '\'')) = (· != '\'') := by
    funext c
    rw [decide_not]
    rfl
  rw [operand?, hquote]
  cases rest.dropWhile (· != '\'') with
  | nil => rfl
  | cons c after => simp only [all_isBlank_iff]

theorem ne_quote_of_isBare
    {c : Char}
    (h : isBare c = true) :
    c ≠ '\'' := by
  rintro rfl
  exact absurd h (by decide)

theorem operand?_of_isBare
    {c : Char} (h : isBare c = true)
    (more : List Char) :
    operand? (c :: more) =
      if trimStart ((c :: more).dropWhile isBare) = [] then
        some (.ofBare (String.ofList ((c :: more).takeWhile isBare)))
      else none := by
  rw [operand?_bare (List.cons_ne_nil c more) (by simpa using ne_quote_of_isBare h)]
  simp only [all_isBlank_iff]

theorem literalOf_quotation (inner : List Char) :
    literalOf ('\'' :: (inner ++ ['\''])) = .text (String.ofList inner) := by
  rw [literalOf, List.dropLast_concat]

theorem literalOf_of_isBare
    {c : Char} (h : isBare c = true)
    (more : List Char) :
    literalOf ((c :: more).takeWhile isBare) =
      .ofBare (String.ofList ((c :: more).takeWhile isBare)) := by
  rw [List.takeWhile_cons_of_pos h, literalOf]
  exact fun _ heq => ne_quote_of_isBare h (List.cons.inj heq).1

/-- A reader of operands finds what the pattern finds. -/
theorem rel_operand
    (hstart : Stops isBlank cs) :
    Option.Rel IsOperand (operand? cs) (split? [operandPattern, many isBlank] earlier cs) := by
  cases cs with
  | nil => exact .none
  | cons c more =>
      rw [split?, operandPattern, first?]
      by_cases hquote : c = '\''
      · subst hquote
        have hstop : Stops isBare ('\'' :: more) := (by decide : isBare '\'' = false)
        rw [operand?_quote, first?_quotation, first?_several_of_stops hstop, Option.or_none]
        cases more.dropWhile (· != '\'') with
        | nil => exact .none
        | cons _ after =>
            simp only [split?_blanks]
            split
            · exact .some ⟨_, _, rfl, literalOf_quotation _⟩
            · exact .none
      · have hbare : isBare c = true := by
          have hblank : isBlank c = false := hstart
          simp [isBare, hblank, hquote]
        have hquotation {α : Type} {goOn : List Char → List Char → Option α} :
            quotationPattern.first? earlier (c :: more) goOn = none := by
          rw [quotationPattern, first?, first?, if_neg (by simpa using hquote)]
        rw [hquotation, Option.none_or, ← split?, operand?_of_isBare hbare,
          split?_several hbare fun _ _ _ => split?_blanks_of_isBare, split?_blanks]
        split
        · exact .some ⟨_, _, rfl, literalOf_of_isBare hbare more⟩
        · exact .none

/-- White space, the operand and the white space after it. -/
def IsOperandAfterBlanks (l : Literal) (found : List (List Char)) : Prop :=
  ∃ blanks more, found = blanks :: more ∧ IsOperand l more

section

variable {α β γ : Type} {R : α → β → Prop} {x : Option α} {y : Option β}

/-- Related answers are given together. -/
theorem isSome_of_rel
    (h : Option.Rel R x y) :
    x.isSome = y.isSome := by
  cases h <;> rfl

theorem rel_map
    {S : α → γ → Prop} {f : β → γ}
    (h : Option.Rel R x y)
    (hmap : ∀ a b, R a b → S a (f b)) :
    Option.Rel S x (y.map f) := by
  cases h with
  | some h => exact .some (hmap _ _ h)
  | none => exact .none

theorem rel_map_left
    {S : γ → β → Prop} {f : α → γ}
    (h : Option.Rel R x y)
    (hmap : ∀ a b, R a b → S (f a) b) :
    Option.Rel S (x.map f) y := by
  cases h with
  | some h => exact .some (hmap _ _ h)
  | none => exact .none

end

theorem split?_operand_of_isBlank
    {c : Char} {rest : List Char} {ps : List Pattern}
    (h : isBlank c = true) :
    split? (operandPattern :: ps) earlier (c :: rest) = none := by
  have hquote : c ≠ '\'' := ne_of_isBlank h (by decide)
  have hbare : isBare c = false := by simp [isBare, h]
  rw [split?, operandPattern, first?, first?_several_of_stops (by exact hbare), Option.or_none,
    quotationPattern, first?, first?, if_neg (by simpa using hquote)]

theorem rel_operand_after_blanks (earlier cs : List Char) :
    Option.Rel IsOperandAfterBlanks (operand? (trimStart cs))
      (split? [many isBlank, operandPattern, many isBlank] earlier cs) := by
  rw [split?_many fun _ _ _ => split?_operand_of_isBlank]
  exact rel_map (rel_operand (stops_dropWhile isBlank cs)) fun _ _ h => ⟨_, _, rfl, h⟩

/-! ## The run of signs -/

theorem isBare_of_isSign
    {c : Char}
    (h : isSign c = true) :
    isBare c = true := by
  simp only [isSign, Bool.or_eq_true, decide_eq_true_eq] at h
  rcases h with ((rfl | rfl) | rfl) | rfl <;> decide

/-- Signs make the operand after them longer. -/
theorem operand?_append_of_isSign
    {signs : List Char} (hne : signs ≠ []) (hsigns : ∀ c ∈ signs, isSign c = true)
    (after : List Char) :
    operand? (trimStart (signs ++ after)) =
      if trimStart (after.dropWhile isBare) = [] then
        some (.ofBare (String.ofList (signs ++ after.takeWhile isBare)))
      else none := by
  have hbare : ∀ c ∈ signs, isBare c = true := fun c hc => isBare_of_isSign (hsigns c hc)
  have hstart : Stops isBlank (signs ++ after) :=
    stops_append hne fun c hc => isBlank_of_isBare (hbare c hc)
  rw [trimStart, dropWhile_of_stops hstart]
  cases signs with
  | nil => exact absurd rfl hne
  | cons c more =>
      rw [List.cons_append, operand?_of_isBare (hbare c List.mem_cons_self), ← List.cons_append,
        List.takeWhile_append_of_pos hbare, List.dropWhile_append_of_pos hbare]

/-- An operand that signs before it could make longer is an operand without them. -/
theorem isSome_operand?_of_append
    {signs after : List Char} (hne : signs ≠ []) (hsigns : ∀ c ∈ signs, isSign c = true)
    (hafter : trimStart after ≠ [])
    (h : (operand? (trimStart (signs ++ after))).isSome = true) :
    (operand? (trimStart after)).isSome = true := by
  rw [operand?_append_of_isSign hne hsigns] at h
  split at h
  · rename_i hrest
    cases after with
    | nil => exact absurd rfl hafter
    | cons c more =>
        cases hbare : isBare c with
        | true =>
            have hstart : Stops isBlank (c :: more) := isBlank_of_isBare hbare
            rw [trimStart, dropWhile_of_stops hstart, operand?_of_isBare hbare, if_pos hrest]
            rfl
        | false =>
            -- the operand would be the signs alone, and all the rest is no white space
            rw [dropWhile_of_stops (by exact hbare)] at hrest
            exact absurd hrest hafter
  · simp at h

/-- The operator with its literal, and its signs before the pieces after them. -/
def IsComparison (r : List Char × Literal) (found : List (List Char)) : Prop :=
  ∃ more, found = r.1 :: more ∧ IsOperandAfterBlanks r.2 more

theorem splitSigns?_of_trimStart_ne
    {run after : List Char}
    (hrun : run ≠ [])
    (hafter : trimStart after ≠ []) :
    splitSigns? run after = (operand? (trimStart after)).map fun l => (run, l) := by
  rw [splitSigns?, if_neg hrun]
  split
  · rename_i hnil
    exact absurd hnil hafter
  · rfl

theorem splitSigns?_of_trimStart_eq
    {init after : List Char} {first last : Char}
    (hafter : trimStart after = []) :
    splitSigns? (first :: init ++ [last]) after =
      some (first :: init, .ofBare (String.ofList [last])) := by
  have hreverse : (first :: init ++ [last]).reverse = last :: (first :: init).reverse :=
    List.reverse_concat
  rw [splitSigns?, if_neg (by simp), hafter]
  simp only [hreverse]
  cases hinit : (first :: init).reverse with
  | nil => simp at hinit
  | cons d more =>
      simp only
      rw [← hinit, List.reverse_reverse]

theorem rel_comparison (earlier signs rest : List Char) :
    Option.Rel IsComparison ((operand? (trimStart rest)).map fun l => (signs, l))
      ((split? [many isBlank, operandPattern, many isBlank] earlier rest).map (signs :: ·)) :=
  rel_map_left (rel_map (rel_operand_after_blanks earlier rest) fun _ _ h => ⟨_, rfl, h⟩) fun _ _ h => h

/-- Where only white space is left there is no operand. -/
theorem split?_operand_of_trimStart_eq
    (earlier : List Char) {after : List Char}
    (hafter : trimStart after = []) :
    split? [many isBlank, operandPattern, many isBlank] earlier after = none := by
  have hrel := rel_operand_after_blanks earlier after
  rw [hafter] at hrel
  exact Option.isNone_iff_eq_none.mp (by simpa [operand?] using (isSome_of_rel hrel).symm)

/-- A sign with only white space after it is an operand. -/
theorem operand?_of_isSign
    {sign : Char} {after : List Char}
    (hsign : isSign sign = true)
    (hafter : trimStart after = []) :
    operand? (trimStart (sign :: after)) = some (.ofBare (String.ofList [sign])) := by
  have hstop : Stops isBare after := by
    cases after with
    | nil => trivial
    | cons c more =>
        have hblank := trimStart_eq_nil_iff.mp hafter c List.mem_cons_self
        simp [isBare, hblank]
  rw [← List.singleton_append, operand?_append_of_isSign (List.cons_ne_nil sign [])
    (List.forall_mem_singleton.mpr hsign), dropWhile_of_stops hstop, takeWhile_of_stops hstop,
    if_pos hafter, List.append_nil]

/-- What backtracking makes of a run of signs is what the reader makes of it. -/
theorem rel_run
    {c : Char} {run after : List Char}
    (hsigns : ∀ d ∈ c :: run, isSign d = true) :
    Option.Rel IsComparison (splitSigns? (c :: run) after)
      (longestFirst run after fun cut rest =>
        (split? [many isBlank, operandPattern, many isBlank] (earlier ++ c :: cut) rest).map
          ((c :: cut) :: ·)) := by
  by_cases hafter : trimStart after = []
  · -- no operand comes after all of the run
    have hnone (earlier : List Char) := split?_operand_of_trimStart_eq earlier hafter
    rcases List.eq_nil_or_concat run with rfl | ⟨init, last, rfl⟩
    · rw [longestFirst, hnone, splitSigns?, if_neg (by simp), hafter]
      exact .none
    · rw [List.concat_eq_append] at hsigns ⊢
      have hlast : isSign last = true :=
        hsigns last (List.mem_cons_of_mem c (List.mem_append_right init List.mem_cons_self))
      have hrel := rel_comparison (earlier ++ c :: init) (c :: init) (last :: after)
      rw [operand?_of_isSign hlast hafter] at hrel
      rw [longestFirst_concat, hnone, Option.map_none, Option.none_or,
        longestFirst_eq_longest fun _ _ _ _ => (isSome_of_rel hrel).symm, ← List.cons_append,
        splitSigns?_of_trimStart_eq hafter]
      exact hrel
  · rw [splitSigns?_of_trimStart_ne (List.cons_ne_nil c run) hafter, longestFirst_eq_longest]
    · exact rel_comparison _ _ _
    · intro cut more hrun h
      rw [Option.isSome_map, ← isSome_of_rel (rel_operand_after_blanks _ _)] at h ⊢
      by_cases hmore : more = []
      · rwa [hmore, List.nil_append] at h
      · have hsome : ∀ d ∈ more, isSign d = true := fun d hd =>
          hsigns d (List.mem_cons_of_mem c (hrun ▸ List.mem_append_right cut hd))
        exact isSome_operand?_of_append hmore hsome hafter h

/-! ## All pieces -/

/-- Signs, an operand and the white space around it. -/
theorem rel_signs :
    Option.Rel IsComparison (splitSigns? (cs.takeWhile isSign) (cs.dropWhile isSign))
      (split? [several isSign, many isBlank, operandPattern, many isBlank] earlier cs) := by
  cases cs with
  | nil => exact .none
  | cons c more =>
      by_cases hc : isSign c = true
      · have hsigns : ∀ d ∈ c :: more.takeWhile isSign, isSign d = true :=
          List.forall_mem_cons.mpr ⟨hc, fun _ => List.mem_takeWhile_imp⟩
        rw [List.takeWhile_cons_of_pos hc, List.dropWhile_cons_of_pos hc, split?,
          first?_several hc]
        exact rel_run hsigns
      · have hstop : Stops isSign (c :: more) := by simpa using hc
        rw [takeWhile_of_stops hstop, split?_several_of_stops hstop]
        exact .none

/-- The pieces of a condition with a field, an operator and a literal. -/
def IsCondition (field : List Char) (r : List Char × Literal) (found : List (List Char)) : Prop :=
  ∃ lead gap more, found = lead :: field :: gap :: more ∧ IsComparison r more

section

variable {ps : List Pattern}

theorem split?_signs_of_isBlank
    (earlier : List Char) (c : Char) (rest : List Char)
    (h : isBlank c = true) :
    split? (several isSign :: ps) earlier (c :: rest) = none :=
  split?_several_of_stops (isSign_of_isBlank h)

theorem split?_field_of_isBlank
    (earlier : List Char) (c : Char) (rest : List Char)
    (h : isBlank c = true) :
    split? (several isWord :: ps) earlier (c :: rest) = none :=
  split?_several_of_stops (isWord_eq_false_of_isBlank h)

/-- The field cannot be taken shorter, since no sign stands where it goes on. -/
theorem split?_signs_of_isWord
    (earlier : List Char) (c : Char) (rest : List Char)
    (h : isWord c = true) :
    split? (many isBlank :: several isSign :: ps) earlier (c :: rest) = none := by
  have hblank : Stops isBlank (c :: rest) := isBlank_of_isWord h
  have hsign : Stops isSign (c :: rest) := isSign_of_isWord h
  rw [split?_many split?_signs_of_isBlank, dropWhile_of_stops hblank,
    split?_several_of_stops hsign, Option.map_none]

end

theorem split?_pieces_of_field_nil
    (h : (trimStart cs).takeWhile isWord = []) :
    split? pieces earlier cs = none := by
  have hstop : Stops isWord (trimStart cs) := by
    cases hstart : trimStart cs with
    | nil => trivial
    | cons c more =>
        rw [hstart, List.takeWhile_cons] at h
        simpa using h
  rw [pieces, split?_many split?_field_of_isBlank, ← trimStart, split?_several_of_stops hstop,
    Option.map_none]

/-- All pieces of a text that has a field. -/
theorem rel_pieces
    (earlier : List Char) {field : List Char}
    (hne : field ≠ [])
    (hfield : (trimStart cs).takeWhile isWord = field) :
    Option.Rel (IsCondition field)
      (splitSigns? ((afterField cs).takeWhile isSign) ((afterField cs).dropWhile isSign))
      (split? pieces earlier cs) := by
  rw [pieces, split?_many split?_field_of_isBlank, ← trimStart]
  cases hstart : trimStart cs with
  | nil =>
      rw [hstart] at hfield
      exact absurd hfield.symm hne
  | cons c more =>
      have hc : isWord c = true := by
        rw [hstart, List.takeWhile_cons] at hfield
        split at hfield
        · assumption
        · exact absurd hfield.symm hne
      rw [split?_several hc split?_signs_of_isWord, ← hstart, hfield,
        split?_many split?_signs_of_isBlank, ← trimStart, ← afterField, Option.map_map,
        Option.map_map]
      exact rel_map rel_signs fun _ _ h => ⟨_, _, _, rfl, h⟩

/-! ## Reading -/

/-- The condition of a field, a run of signs and a literal. -/
def ofParts (field signs : List Char) (literal : Literal) : Except Fault Condition :=
  match Comparator.ofSymbol (String.ofList signs) with
  | .ok comparator => .ok ⟨String.ofList field, comparator, literal⟩
  | .error fault => .error fault

/-- The condition of a text that has been split into pieces, if it has. -/
def ofPieces (s : String) : Option (List (List Char)) → Except Fault Condition
  | some [_, field, _, signs, _, operand, _] => ofParts field signs (literalOf operand)
  | _ => .error (.malformedCondition s)

theorem ofPieces_of_rel
    {field : List Char} {x : Option (List Char × Literal)} {y : Option (List (List Char))}
    (h : Option.Rel (IsCondition field) x y)
    (s : String) :
    ofPieces s y =
      x.elim (.error (.malformedCondition s)) fun r => ofParts field r.1 r.2 := by
  cases h with
  | none => rfl
  | some h =>
      obtain ⟨lead, gap, _, rfl, _, rfl, blanks, _, rfl, operand, rest, rfl, hliteral⟩ := h
      rw [Option.elim_some, ← hliteral]
      rfl

/-- **Read as matched.**  A text is read as a condition by the first split into the pieces of a
condition that backtracking finds. -/
theorem ofText_eq_split? (s : String) :
    ofText s = ofPieces s (split? pieces [] s.toList) := by
  unfold ofText
  simp only
  rw [← afterField]
  by_cases hfield : (trimStart s.toList).takeWhile isWord = []
  · rw [split?_pieces_of_field_nil hfield]
    split
    · exact if_pos hfield
    · rfl
  · rw [ofPieces_of_rel (rel_pieces [] hfield rfl) s]
    split
    · rename_i hsplit
      rw [if_neg hfield, hsplit]
      rfl
    · rename_i hsplit
      rw [hsplit]
      rfl

/-- Where nothing comes after the signs, the run gives its last sign to the operand. -/
example : (split? pieces [] "age >= ".toList).map (·.map String.ofList) =
    some ["", "age", " ", ">", "", "=", " "] := by
  decide +kernel

theorem ofParts_ne_malformed (field signs : List Char) (literal : Literal) (s : String) :
    ofParts field signs literal ≠ .error (.malformedCondition s) := by
  unfold ofParts Comparator.ofSymbol
  split_ifs <;> simp

/-- A text is refused for its form only if it cannot be split into the pieces of a condition. -/
theorem ofText_eq_malformed_iff (s : String) :
    ofText s = .error (.malformedCondition s) ↔
      ∀ cuts : List (List Char), s.toList = cuts.flatten → ¬ Splits pieces [] cuts := by
  rw [ofText_eq_split?]
  cases hsplit : split? pieces [] s.toList with
  | none =>
      refine iff_of_true rfl fun cuts hs hcuts => ?_
      have hsome := isSome_split? hcuts
      rw [← hs, hsplit] at hsome
      simp at hsome
  | some cuts =>
      obtain ⟨hs, hcuts⟩ := splits_of_split? hsplit
      refine iff_of_false ?_ fun h => h cuts hs hcuts
      match cuts, hcuts.length_eq with
      | [_, field, _, signs, _, operand, _], _ =>
          exact ofParts_ne_malformed field signs (literalOf operand) s

end Condition
end Eligibility
