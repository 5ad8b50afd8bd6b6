import Eligibility.Json.Nesting
import Eligibility.Proofs.Json.Layout

/-!
# Nesting of documents

The nesting that is measured on the characters of a text is that of the document which the text lays
out, whatever quotes, backslashes and brackets its texts and keys hold.  Lexemes are in between: only
those that open or close a list or an object count.

**Results.**
* `nestingFrom_spelled`, `lexemesNesting_cons`: what a lexeme adds to the measure;
* `nestingFrom_laid`: what a layout adds to the measure;
* `lexemesNesting_append`: what the lexemes of a document add to the measure;
* `textNesting_of_laid`: the nesting of a text is that of its document.
-/

namespace Eligibility
namespace Json

/-- The characters that open or close something in a text. -/
def isStructural (c : Char) : Bool :=
  c == '"' || c == '\x7b' || c == '[' || c == '\x7d' || c == ']'

theorem nestingFrom_of_not_structural
    {cs : List Char}
    (h : ∀ c ∈ cs, isStructural c = false)
    (opened deepest : Nat) (rest : List Char) :
    nestingFrom .outside opened deepest (cs ++ rest) =
      nestingFrom .outside opened deepest rest := by
  induction cs with
  | nil => rfl
  | cons c cs ih =>
      have hc := h c (by simp)
      simp only [isStructural, Bool.or_eq_false_iff, beq_eq_false_iff_ne] at hc
      obtain ⟨⟨⟨⟨hquote, hbrace⟩, hbracket⟩, hbrace'⟩, hbracket'⟩ := hc
      rw [List.cons_append, nestingFrom]
      simp only [hquote, hbrace, hbracket, hbrace', hbracket', if_false, or_self]
      exact ih fun a ha => h a (List.mem_cons_of_mem _ ha)

theorem isStructural_of_numeral
    {c : Char}
    (h : c.isDigit = true ∨ c = '-' ∨ c = '+' ∨ c = '.' ∨ c = 'e' ∨ c = 'E') :
    isStructural c = false := by
  rcases h with h | rfl | rfl | rfl | rfl | rfl
  · simp [isStructural, Text.ne_of_isDigit h]
  all_goals rfl

theorem ne_of_unit?
    {a b c d : Char} {n : Nat}
    (h : Lexeme.unit? a b c d = some n) :
    ∀ e ∈ [a, b, c, d], e ≠ '"' ∧ e ≠ '\\' := by
  intro e he
  constructor
  all_goals
    rintro rfl
    simp only [List.mem_cons, List.not_mem_nil, or_false] at he
    rcases he with rfl | rfl | rfl | rfl <;> simp [Lexeme.unit?, Lexeme.hexDigit?] at h

/-! ## Characters and lexemes -/

theorem nestingFrom_part
    {part : TextPart} {cs : List Char}
    (h : part.Spelled cs)
    (opened deepest : Nat) (rest : List Char) :
    nestingFrom .quoted opened deepest (cs ++ rest) =
      nestingFrom .quoted opened deepest rest := by
  cases h with
  | plain hquote hbackslash hcontrol => simp [nestingFrom, hquote, hbackslash]
  | named h => simp [nestingFrom]
  | unit h =>
      have hne := ne_of_unit? h
      simp only [List.forall_mem_cons, List.not_mem_nil, false_implies, implies_true,
        and_true] at hne
      simp [nestingFrom, hne]

theorem nestingFrom_parts
    {parts : List TextPart} {cs : List Char}
    (h : PartsSpelled parts cs)
    (opened deepest : Nat) (rest : List Char) :
    nestingFrom .quoted opened deepest (cs ++ rest) =
      nestingFrom .quoted opened deepest rest := by
  induction h with
  | nil => rfl
  | cons h hmore ih => rw [List.append_assoc, nestingFrom_part h, ih]

/-- The nesting of the rest of a text, measured on its lexemes. -/
def lexemesNesting (opened deepest : Nat) : List Lexeme → Nat
  | [] => deepest
  | .openList :: ls => lexemesNesting (opened + 1) (max deepest (opened + 1)) ls
  | .openObject :: ls => lexemesNesting (opened + 1) (max deepest (opened + 1)) ls
  | .closeList :: ls => lexemesNesting (opened - 1) deepest ls
  | .closeObject :: ls => lexemesNesting (opened - 1) deepest ls
  | _ :: ls => lexemesNesting opened deepest ls

/-- How many containers are open after a lexeme. -/
def openedAfter (opened : Nat) : Lexeme → Nat
  | .openList | .openObject => opened + 1
  | .closeList | .closeObject => opened - 1
  | _ => opened

/-- A lexeme changes the number of open containers, and perhaps the largest so far. -/
theorem lexemesNesting_cons
    {opened deepest : Nat}
    (h : opened ≤ deepest)
    (l : Lexeme) (ls : List Lexeme) :
    lexemesNesting opened deepest (l :: ls) =
      lexemesNesting (openedAfter opened l) (max deepest (openedAfter opened l)) ls := by
  cases l <;> simp only [lexemesNesting, openedAfter] <;> congr 1 <;> omega

/-- The characters that spell a lexeme count as the lexeme does. -/
theorem nestingFrom_spelled
    {l : Lexeme} {spelling : List Char}
    (hl : l.Spelled spelling)
    {opened deepest : Nat}
    (h : opened ≤ deepest)
    (rest : List Char) :
    nestingFrom .outside opened deepest (spelling ++ rest) =
      nestingFrom .outside (openedAfter opened l) (max deepest (openedAfter opened l)) rest := by
  have hopened : max deepest opened = deepest := Nat.max_eq_left h
  have hclosed : max deepest (opened - 1) = deepest := by omega
  have hplain {m : Lexeme} (hm : openedAfter opened m = opened)
      (hcs : ∀ c ∈ spelling, isStructural c = false) :
      nestingFrom .outside opened deepest (spelling ++ rest) =
        nestingFrom .outside (openedAfter opened m) (max deepest (openedAfter opened m)) rest := by
    rw [hm, hopened, nestingFrom_of_not_structural hcs]
  cases hl with
  | null => exact hplain rfl (by simp [isStructural])
  | true => exact hplain rfl (by simp [isStructural])
  | false => exact hplain rfl (by simp [isStructural])
  | number hn => exact hplain rfl fun c hc => isStructural_of_numeral (hn.mem hc)
  | text ht =>
      rw [List.cons_append, List.append_assoc, List.singleton_append, nestingFrom, if_pos rfl,
        nestingFrom_parts ht]
      simp [nestingFrom, openedAfter, hopened]
  | @mark c _ hmark =>
      rcases Lexeme.eq_of_mark? hmark with rfl | rfl | rfl | rfl | rfl | rfl
      all_goals
        obtain rfl := Option.some.inj hmark
        simp [nestingFrom, openedAfter, hopened, hclosed]

theorem nestingFrom_space
    {c : Char}
    (hc : Lexeme.isSpace c = true)
    (opened deepest : Nat) (rest : List Char) :
    nestingFrom .outside opened deepest (c :: rest) =
      nestingFrom .outside opened deepest rest := by
  have hplain : ∀ a ∈ [c], isStructural a = false := by
    simp only [Lexeme.isSpace, Bool.or_eq_true, decide_eq_true_eq] at hc
    rcases hc with ((rfl | rfl) | rfl) | rfl <;> simp [isStructural]
  exact nestingFrom_of_not_structural hplain opened deepest rest

/-- White space and the characters of scalars open no containers. -/
theorem nestingFrom_laid
    {ls : List Lexeme} {cs : List Char}
    (h : Lexeme.Laid ls cs)
    {opened deepest : Nat} (hle : opened ≤ deepest) :
    nestingFrom .outside opened deepest cs = lexemesNesting opened deepest ls := by
  induction h generalizing opened deepest with
  | nil => rfl
  | space hc h ih => rw [nestingFrom_space hc, ih hle]
  | lexeme hl h ih =>
      rw [nestingFrom_spelled hl hle, lexemesNesting_cons hle, ih (Nat.le_max_right _ _)]

/-! ## Lexemes and documents -/

namespace Document

mutual

/-- The largest number of lists and objects that lie inside one another. -/
def nesting : Document → Nat
  | list items _ => itemsNesting items + 1
  | object members _ => membersNesting members + 1
  | _ => 0
termination_by structural d => d

/-- The largest nesting of the elements of a list. -/
def itemsNesting : List Document → Nat
  | [] => 0
  | d :: items => max d.nesting (itemsNesting items)
termination_by structural items => items

/-- The largest nesting of the members of an object. -/
def membersNesting : List (Option String × Document) → Nat
  | [] => 0
  | (_, d) :: members => max d.nesting (membersNesting members)
termination_by structural members => members

end

theorem nesting_le_of_mem
    {members : List (Option String × Document)} {m : Option String × Document}
    (h : m ∈ members) :
    m.2.nesting ≤ membersNesting members := by
  induction members with
  | nil => simp at h
  | cons n members ih =>
      rw [membersNesting]
      rcases List.mem_cons.mp h with rfl | h
      · exact Nat.le_max_left _ _
      · exact Nat.le_trans (ih h) (Nat.le_max_right _ _)

mutual

/-- A document opens as many containers inside one another as it nests, and closes them all. -/
theorem lexemesNesting_append
    (d : Document) {opened deepest : Nat} (h : opened ≤ deepest) (rest : List Lexeme) :
    lexemesNesting opened deepest (d.lexemes ++ rest) =
      lexemesNesting opened (max deepest (opened + d.nesting)) rest := by
  have hscalar {e : Document} (he : e.nesting = 0) :
      lexemesNesting opened deepest rest =
        lexemesNesting opened (max deepest (opened + e.nesting)) rest := by
    congr 1
    omega
  match d with
  | null => exact hscalar rfl
  | bool b => exact hscalar rfl
  | number n => exact hscalar rfl
  | text content => exact hscalar rfl
  | broken => exact hscalar rfl
  | list [] closed => rfl
  | list (e :: items) closed =>
      rw [lexemes, List.cons_append, List.append_assoc, List.append_assoc, lexemesNesting,
        lexemesNesting_append e (by omega), lexemesNesting_items items (by omega),
        List.singleton_append, lexemesNesting, nesting, itemsNesting]
      congr 1
      omega
  | object [] closed => rfl
  | object ((key, e) :: members) closed =>
      rw [lexemes, List.cons_append, List.cons_append, List.cons_append, List.append_assoc,
        List.append_assoc, lexemesNesting]
      simp only [lexemesNesting]
      rw [lexemesNesting_append e (by omega), lexemesNesting_members members (by omega),
        List.singleton_append, lexemesNesting, nesting, membersNesting]
      congr 1
      omega

theorem lexemesNesting_items
    (items : List Document) {opened deepest : Nat} (h : opened ≤ deepest) (rest : List Lexeme) :
    lexemesNesting opened deepest (itemLexemes items ++ rest) =
      lexemesNesting opened (max deepest (opened + itemsNesting items)) rest := by
  match items with
  | [] =>
      have hmax : max deepest (opened + 0) = deepest := by omega
      rw [itemsNesting, hmax]
      rfl
  | d :: items =>
      rw [itemLexemes, List.cons_append, List.append_assoc]
      simp only [lexemesNesting]
      rw [lexemesNesting_append d h, lexemesNesting_items items (by omega), itemsNesting]
      congr 1
      omega

theorem lexemesNesting_members
    (members : List (Option String × Document)) {opened deepest : Nat} (h : opened ≤ deepest)
    (rest : List Lexeme) :
    lexemesNesting opened deepest (memberLexemes members ++ rest) =
      lexemesNesting opened (max deepest (opened + membersNesting members)) rest := by
  match members with
  | [] =>
      have hmax : max deepest (opened + 0) = deepest := by omega
      rw [membersNesting, hmax]
      rfl
  | (key, d) :: members =>
      rw [memberLexemes, List.cons_append, List.cons_append, List.cons_append, List.append_assoc]
      simp only [lexemesNesting]
      rw [lexemesNesting_append d h, lexemesNesting_members members (by omega), membersNesting]
      congr 1
      omega

end

/-- The nesting of a text is that of its document, however it is laid out. -/
theorem textNesting_of_laid
    {d : Document} {s : String}
    (h : Lexeme.Laid d.lexemes s.toList) :
    textNesting s = d.nesting := by
  have hlexemes := d.lexemesNesting_append (Nat.le_refl 0) []
  rw [List.append_nil] at hlexemes
  rw [textNesting, nestingFrom_laid h (Nat.le_refl 0), hlexemes, lexemesNesting]
  omega

end Document
end Json
end Eligibility
