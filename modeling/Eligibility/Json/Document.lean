import Eligibility.Json.Lexeme

/-!
# Documents

A document is the tree that a sequence of lexemes spells, *as far as it goes*: where the sequence
breaks off or goes on in a way that the grammar does not allow, the tree is `broken`, and the lists
and objects around that place are not closed.  Readers that go through a document in text order thus
meet the same first fault as readers of the text itself.

Lists and objects are put together with an explicit stack of the containers that are still open, so
that the nesting of a document is limited by nothing else than the text.
-/

namespace Eligibility
namespace Json

/-- The tree that a text spells, as far as it goes. -/
inductive Document
  | null
  | bool (value : Bool)
  | number (numeral : Numeral)
  /-- A text; one with half a character has no content. -/
  | text (content : Option String)
  /-- Elements in order, and whether the list ends after them. -/
  | list (items : List Document) (closed : Bool)
  /-- Members in order, and whether the object ends after them. -/
  | object (members : List (Option String × Document)) (closed : Bool)
  /-- Nothing that the grammar allows. -/
  | broken
deriving Inhabited, Repr

namespace Document

/-- A container that is still open, with what it holds so far in reverse. -/
inductive Open
  | list (items : List Document)
  /-- An object whose latest member has a key but no value yet. -/
  | object (members : List (Option String × Document)) (key : Option String)
deriving Inhabited, Repr

/-- What is allowed next. -/
inductive Expected
  /-- A value. -/
  | value
  /-- A value, or the end of the list. -/
  | firstItem
  /-- A key, or the end of the object whose members are given in reverse. -/
  | firstKey
  /-- A key, after the members that are given in reverse. -/
  | key (members : List (Option String × Document))
  /-- A colon after a key. -/
  | colon (members : List (Option String × Document)) (key : Option String)
  /-- A comma or the end of the innermost container, after a value. -/
  | after (value : Document)
deriving Inhabited, Repr

/-- The value of a lexeme that is a whole value. -/
def ofLexeme? : Lexeme → Option Document
  | .null => some null
  | .bool b => some (bool b)
  | .number n => some (number n)
  | .text content => some (text content)
  | _ => none

/-- Starts a value. -/
def start? (opened : List Open) (l : Lexeme) : Option (Expected × List Open) :=
  match l with
  | .openList => some (.firstItem, opened)
  | .openObject => some (.firstKey, opened)
  | l => (ofLexeme? l).map fun d => (.after d, opened)

/-- Takes one lexeme into account, if it is allowed.  `opened` are the open containers around the
place, innermost first; the container that has just been opened is in `Expected` alone. -/
def advance? (opened : List Open) : Expected → Lexeme → Option (Expected × List Open)
  | .value, l => start? opened l
  | .firstItem, .closeList => some (.after (list [] true), opened)
  | .firstItem, l => start? (.list [] :: opened) l
  | .firstKey, .closeObject => some (.after (object [] true), opened)
  | .firstKey, .text key => some (.colon [] key, opened)
  | .firstKey, _ => none
  | .key members, .text key => some (.colon members key, opened)
  | .key _, _ => none
  | .colon members key, .colon => some (.value, .object members key :: opened)
  | .colon _ _, _ => none
  | .after d, l =>
    match opened, l with
    | .list items :: outer, .comma => some (.value, .list (d :: items) :: outer)
    | .list items :: outer, .closeList => some (.after (list (d :: items).reverse true), outer)
    | .object members key :: outer, .comma => some (.key ((key, d) :: members), outer)
    | .object members key :: outer, .closeObject =>
      some (.after (object ((key, d) :: members).reverse true), outer)
    | _, _ => none

/-- The unfinished tree around a place where nothing more is read. -/
def abandon (d : Document) : List Open → Document
  | [] => d
  | .list items :: outer => abandon (list (d :: items).reverse false) outer
  | .object members key :: outer => abandon (object ((key, d) :: members).reverse false) outer

/-- The unfinished tree at a place where something was expected. -/
def abandonAt (opened : List Open) : Expected → Document
  | .value => abandon broken opened
  | .firstItem => abandon (list [] false) opened
  | .firstKey => abandon (object [] false) opened
  | .key members => abandon (object members.reverse false) opened
  | .colon members key => abandon (object ((key, broken) :: members).reverse false) opened
  | .after d => abandon d opened

/-- Reads one value, and returns it with the lexemes after it.  A value that is not finished leaves
the lexeme at which reading stopped, or `invalid` at the end. -/
def read (opened : List Open) (expected : Expected) : List Lexeme → Document × List Lexeme
  | [] =>
    match opened, expected with
    | [], .after d => (d, [])
    | opened, expected => (abandonAt opened expected, [.invalid])
  | l :: rest =>
    match opened, expected with
    | [], .after d => (d, l :: rest)
    | opened, expected =>
      match advance? opened expected l with
      | some (expected, opened) => read opened expected rest
      | none => (abandonAt opened expected, l :: rest)

/-- The document that a text spells, and the lexemes after it. -/
def ofText (s : String) : Document × List Lexeme :=
  read [] .value (Lexeme.ofText s)

end Document
end Json
end Eligibility
