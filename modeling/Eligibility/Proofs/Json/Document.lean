import Eligibility.Json.Document

/-!
# Reading complete documents

A complete document has closed all its lists and objects.  Its lexemes spell it at every place where
a value is allowed, whatever containers are open there and whatever lexemes follow.

**Results.**
* `read_step`: an allowed lexeme is taken and reading goes on;
* `read_lexemes`: the lexemes of a complete document are read as the document.
-/

namespace Eligibility
namespace Json
namespace Document

mutual

/-- Whether the document has no unfinished part. -/
def Complete : Document → Prop
  | list items closed => closed = true ∧ ItemsComplete items
  | object members closed => closed = true ∧ MembersComplete members
  | broken => False
  | _ => True
termination_by structural d => d

/-- Whether the elements of a list have no unfinished part. -/
def ItemsComplete : List Document → Prop
  | [] => True
  | d :: items => d.Complete ∧ ItemsComplete items
termination_by structural items => items

/-- Whether the members of an object have no unfinished part. -/
def MembersComplete : List (Option String × Document) → Prop
  | [] => True
  | (_, d) :: members => d.Complete ∧ MembersComplete members
termination_by structural members => members

end

theorem membersComplete_iff
    {members : List (Option String × Document)} :
    MembersComplete members ↔ ∀ m ∈ members, m.2.Complete := by
  induction members with
  | nil => simp [MembersComplete]
  | cons m members ih => rw [MembersComplete, ih, List.forall_mem_cons]

mutual

/-- The lexemes that spell a complete document. -/
def lexemes : Document → List Lexeme
  | null => [.null]
  | bool b => [.bool b]
  | number n => [.number n]
  | text content => [.text content]
  | list [] _ => [.openList, .closeList]
  | list (d :: items) _ => .openList :: (d.lexemes ++ (itemLexemes items ++ [.closeList]))
  | object [] _ => [.openObject, .closeObject]
  | object ((key, d) :: members) _ =>
    .openObject :: .text key :: .colon :: (d.lexemes ++ (memberLexemes members ++ [.closeObject]))
  | broken => []
termination_by structural d => d

/-- The lexemes of the further elements of a list. -/
def itemLexemes : List Document → List Lexeme
  | [] => []
  | d :: items => .comma :: (d.lexemes ++ itemLexemes items)
termination_by structural items => items

/-- The lexemes of the further members of an object. -/
def memberLexemes : List (Option String × Document) → List Lexeme
  | [] => []
  | (key, d) :: members => .comma :: .text key :: .colon :: (d.lexemes ++ memberLexemes members)
termination_by structural members => members

end

/-- An allowed lexeme is taken, and reading goes on with the next one. -/
theorem read_step
    {opened opened' : List Open} {expected expected' : Expected} {l : Lexeme}
    (h : advance? opened expected l = some (expected', opened'))
    (rest : List Lexeme) :
    read opened expected (l :: rest) = read opened' expected' rest := by
  rw [read.eq_def]
  simp only
  split
  · simp [advance?] at h
  · rw [h]

/-- The first lexeme of a complete document starts a value. -/
theorem exists_start
    {d : Document}
    (h : d.Complete) :
    ∃ l more, d.lexemes = l :: more ∧ l ≠ .closeList ∧
      ∀ opened, ∃ next, start? opened l = some next := by
  match d with
  | null => exact ⟨_, _, rfl, by simp, fun opened => ⟨_, rfl⟩⟩
  | bool b => exact ⟨_, _, rfl, by simp, fun opened => ⟨_, rfl⟩⟩
  | number n => exact ⟨_, _, rfl, by simp, fun opened => ⟨_, rfl⟩⟩
  | text content => exact ⟨_, _, rfl, by simp, fun opened => ⟨_, rfl⟩⟩
  | list [] closed => exact ⟨_, _, rfl, by simp, fun opened => ⟨_, rfl⟩⟩
  | list (e :: items) closed => exact ⟨_, _, rfl, by simp, fun opened => ⟨_, rfl⟩⟩
  | object [] closed => exact ⟨_, _, rfl, by simp, fun opened => ⟨_, rfl⟩⟩
  | object ((key, e) :: members) closed => exact ⟨_, _, rfl, by simp, fun opened => ⟨_, rfl⟩⟩
  | broken => exact h.elim

/-- The first element of a list is read as any value inside the list. -/
theorem read_firstItem
    {d : Document}
    (h : d.Complete)
    (opened : List Open) (rest : List Lexeme) :
    read opened .firstItem (d.lexemes ++ rest) =
      read (.list [] :: opened) .value (d.lexemes ++ rest) := by
  obtain ⟨l, more, hlexemes, hl, hstart⟩ := exists_start h
  obtain ⟨⟨expected, opened'⟩, hnext⟩ := hstart (.list [] :: opened)
  have hfirst : advance? opened .firstItem l = some (expected, opened') := by
    rw [← hnext]
    cases l <;> first | rfl | exact absurd rfl hl
  have hvalue : advance? (.list [] :: opened) .value l = some (expected, opened') := hnext
  rw [hlexemes, List.cons_append, read_step hfirst, read_step hvalue]

mutual

/-- The lexemes of a complete document bring the reader to the place after it. -/
theorem read_lexemes
    (d : Document) (h : d.Complete)
    (opened : List Open) (rest : List Lexeme) :
    read opened .value (d.lexemes ++ rest) = read opened (.after d) rest := by
  match d with
  | null => exact read_step rfl rest
  | bool b => exact read_step rfl rest
  | number n => exact read_step rfl rest
  | text content => exact read_step rfl rest
  | list [] closed =>
      obtain ⟨rfl, -⟩ := h
      rw [lexemes, List.cons_append, read_step rfl]
      exact read_step rfl rest
  | list (e :: items) closed =>
      obtain ⟨rfl, he, hitems⟩ := h
      rw [lexemes, List.cons_append, List.append_assoc, List.append_assoc, read_step rfl,
        read_firstItem he, read_lexemes e he]
      exact read_itemLexemes items hitems [] e opened rest
  | object [] closed =>
      obtain ⟨rfl, -⟩ := h
      rw [lexemes, List.cons_append, read_step rfl]
      exact read_step rfl rest
  | object ((key, e) :: members) closed =>
      obtain ⟨rfl, he, hmembers⟩ := h
      rw [lexemes, List.cons_append, List.cons_append, List.cons_append, List.append_assoc,
        List.append_assoc, read_step rfl, read_step rfl, read_step rfl, read_lexemes e he]
      exact read_memberLexemes members hmembers [] key e opened rest
  | broken => exact h.elim

theorem read_itemLexemes
    (items : List Document) (h : ItemsComplete items)
    (before : List Document) (d : Document) (opened : List Open) (rest : List Lexeme) :
    read (.list before :: opened) (.after d) (itemLexemes items ++ ([.closeList] ++ rest)) =
      read opened (.after (list (before.reverse ++ d :: items) true)) rest := by
  match items with
  | [] =>
      rw [itemLexemes, List.nil_append, List.singleton_append, read_step rfl, List.reverse_cons]
  | e :: items =>
      obtain ⟨he, hitems⟩ := h
      rw [itemLexemes, List.cons_append, List.append_assoc, read_step rfl, read_lexemes e he,
        read_itemLexemes items hitems (d :: before) e opened rest]
      simp

theorem read_memberLexemes
    (members : List (Option String × Document)) (h : MembersComplete members)
    (before : List (Option String × Document)) (key : Option String) (d : Document)
    (opened : List Open) (rest : List Lexeme) :
    read (.object before key :: opened) (.after d)
        (memberLexemes members ++ ([.closeObject] ++ rest)) =
      read opened (.after (object (before.reverse ++ (key, d) :: members) true)) rest := by
  match members with
  | [] =>
      rw [memberLexemes, List.nil_append, List.singleton_append, read_step rfl, List.reverse_cons]
  | (key', e) :: members =>
      obtain ⟨he, hmembers⟩ := h
      rw [memberLexemes, List.cons_append, List.cons_append, List.cons_append, List.append_assoc,
        read_step rfl, read_step rfl, read_step rfl, read_lexemes e he,
        read_memberLexemes members hmembers ((key, d) :: before) key' e opened rest]
      simp

end

end Document
end Json
end Eligibility
