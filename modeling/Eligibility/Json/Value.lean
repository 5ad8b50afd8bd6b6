import Eligibility.Json.Document

/-!
# Values

A value is a document that has been read completely.  `Value.ofDocument?` keeps one member for each
key, the last, and puts the members in the order of their keys; `Value.writeBefore` writes a value
without white space, with the members in the order in which they stand.

**Results.**
* `writeBefore_append`: what is written does not depend on what follows.
-/

namespace Eligibility
namespace Json

/-- A complete value. -/
inductive Value
  | null
  | bool (value : Bool)
  | number (numeral : Numeral)
  | text (content : String)
  | list (items : List Value)
  | object (members : List (String × Value))
deriving Inhabited, Repr

namespace Value

/-- Puts a member at its place among members that are ordered by key, instead of one that has the
same key. -/
def insertMember (key : String) (value : Value) : List (String × Value) → List (String × Value)
  | [] => [(key, value)]
  | (k, v) :: rest =>
    if key = k then (key, value) :: rest
    else if key < k then (key, value) :: (k, v) :: rest
    else (k, v) :: insertMember key value rest

/-- Members in the order of their keys; of several with the same key the last one stays. -/
def sortMembers (members : List (String × Value)) : List (String × Value) :=
  members.foldl (fun sorted m => insertMember m.1 m.2 sorted) []

mutual

/-- The value of a document that is complete, with every text whole and every number in range. -/
def ofDocument? : Document → Option Value
  | .null => some null
  | .bool b => some (bool b)
  | .number n => n.value?.map fun _ => number n
  | .text content => content.map text
  | .list items closed => if closed then (ofItems? items).map list else none
  | .object members closed =>
    if closed then (ofMembers? members).map fun ms => object (sortMembers ms) else none
  | .broken => none
termination_by structural d => d

/-- The values of the elements of a list. -/
def ofItems? : List Document → Option (List Value)
  | [] => some []
  | item :: items =>
    match ofDocument? item with
    | some v => (ofItems? items).map (v :: ·)
    | none => none
termination_by structural items => items

/-- The keys and values of the members of an object. -/
def ofMembers? : List (Option String × Document) → Option (List (String × Value))
  | [] => some []
  | (key, value) :: members =>
    match key, ofDocument? value with
    | some k, some v => (ofMembers? members).map ((k, v) :: ·)
    | _, _ => none
termination_by structural members => members

end

mutual

/-- The value as a document. -/
def toDocument : Value → Document
  | null => .null
  | bool b => .bool b
  | number n => .number n
  | text s => .text (some s)
  | list items => .list (itemsToDocuments items) true
  | object members => .object (membersToDocuments members) true
termination_by structural v => v

/-- The elements of a list as documents. -/
def itemsToDocuments : List Value → List Document
  | [] => []
  | v :: vs => v.toDocument :: itemsToDocuments vs
termination_by structural items => items

/-- The members of an object as documents. -/
def membersToDocuments : List (String × Value) → List (Option String × Document)
  | [] => []
  | (k, v) :: ms => (some k, v.toDocument) :: membersToDocuments ms
termination_by structural members => members

end

mutual

/-- The largest number of lists and objects that lie inside one another. -/
def levels : Value → Nat
  | list items => itemsLevels items + 1
  | object members => membersLevels members + 1
  | _ => 0
termination_by structural v => v

/-- The most levels of the elements of a list. -/
def itemsLevels : List Value → Nat
  | [] => 0
  | v :: vs => max v.levels (itemsLevels vs)
termination_by structural items => items

/-- The most levels of the members of an object. -/
def membersLevels : List (String × Value) → Nat
  | [] => 0
  | (_, v) :: ms => max v.levels (membersLevels ms)
termination_by structural members => members

end

mutual

/-- The value with the members of every object in the order of their keys. -/
def sorted : Value → Value
  | list items => list (sortedItems items)
  | object members => object (sortMembers (sortedMembers members))
  | v => v
termination_by structural v => v

/-- The elements of a list, each with its members in order. -/
def sortedItems : List Value → List Value
  | [] => []
  | v :: vs => v.sorted :: sortedItems vs
termination_by structural items => items

/-- The members of an object, each with the members below it in order. -/
def sortedMembers : List (String × Value) → List (String × Value)
  | [] => []
  | (k, v) :: ms => (k, v.sorted) :: sortedMembers ms
termination_by structural members => members

end

/-- The written form of one character inside a text: quotes, backslashes and controls are escaped.
-/
def escape (c : Char) : List Char :=
  if c = '"' then ['\\', '"']
  else if c = '\\' then ['\\', '\\']
  else if c = '\x08' then ['\\', 'b']
  else if c = '\t' then ['\\', 't']
  else if c = '\n' then ['\\', 'n']
  else if c = '\x0c' then ['\\', 'f']
  else if c = '\r' then ['\\', 'r']
  else if c.toNat < 0x20 then
    ['\\', 'u', '0', '0', Nat.digitChar (c.toNat / 16), Nat.digitChar (c.toNat % 16)]
  else [c]

/-- The written form of a text. -/
def quote (s : String) : List Char :=
  '"' :: (s.toList.flatMap escape ++ ['"'])

mutual

/-- Writes a value before a text. -/
def writeBefore : Value → List Char → List Char
  | null, rest => 'n' :: 'u' :: 'l' :: 'l' :: rest
  | bool true, rest => 't' :: 'r' :: 'u' :: 'e' :: rest
  | bool false, rest => 'f' :: 'a' :: 'l' :: 's' :: 'e' :: rest
  | number n, rest => n.text ++ rest
  | text s, rest => quote s ++ rest
  | list [], rest => '[' :: ']' :: rest
  | list (v :: vs), rest => '[' :: v.writeBefore (writeItemsBefore vs (']' :: rest))
  | object [], rest => '\x7b' :: '\x7d' :: rest
  | object ((k, v) :: ms), rest =>
    '\x7b' :: (quote k ++ ':' :: v.writeBefore (writeMembersBefore ms ('\x7d' :: rest)))
termination_by structural v => v

/-- Writes the further elements of a list before a text. -/
def writeItemsBefore : List Value → List Char → List Char
  | [], rest => rest
  | v :: vs, rest => ',' :: v.writeBefore (writeItemsBefore vs rest)
termination_by structural items => items

/-- Writes the further members of an object before a text. -/
def writeMembersBefore : List (String × Value) → List Char → List Char
  | [], rest => rest
  | (k, v) :: ms, rest => ',' :: (quote k ++ ':' :: v.writeBefore (writeMembersBefore ms rest))
termination_by structural members => members

end

mutual

/-- What is written before a text does not depend on that text. -/
theorem writeBefore_append (v : Value) (first rest : List Char) :
    v.writeBefore (first ++ rest) = v.writeBefore first ++ rest := by
  match v with
  | null => simp [writeBefore]
  | bool true => simp [writeBefore]
  | bool false => simp [writeBefore]
  | number n => simp [writeBefore]
  | text s => simp [writeBefore]
  | list [] => simp [writeBefore]
  | list (v :: vs) =>
    simp only [writeBefore]
    rw [← List.cons_append, writeItemsBefore_append vs, writeBefore_append v, List.cons_append]
  | object [] => simp [writeBefore]
  | object ((k, v) :: ms) =>
    have hms := writeMembersBefore_append ms ('\x7d' :: first) rest
    rw [List.cons_append] at hms
    simp only [writeBefore]
    rw [hms, writeBefore_append v]
    simp

theorem writeItemsBefore_append (vs : List Value) (first rest : List Char) :
    writeItemsBefore vs (first ++ rest) = writeItemsBefore vs first ++ rest := by
  match vs with
  | [] => simp [writeItemsBefore]
  | v :: vs =>
    simp only [writeItemsBefore]
    rw [writeItemsBefore_append vs, writeBefore_append v, List.cons_append]

theorem writeMembersBefore_append (ms : List (String × Value)) (first rest : List Char) :
    writeMembersBefore ms (first ++ rest) = writeMembersBefore ms first ++ rest := by
  match ms with
  | [] => simp [writeMembersBefore]
  | (k, v) :: ms =>
    simp only [writeMembersBefore]
    rw [writeMembersBefore_append ms, writeBefore_append v]
    simp

end

/-- The text of a value, without white space. -/
def write (v : Value) : String :=
  String.ofList (v.writeBefore [])

/-- The value that a text spells, and nothing else. -/
def ofText? (s : String) : Option Value :=
  match Document.ofText s with
  | (d, []) => ofDocument? d
  | (_, _ :: _) => none

end Value
end Json
end Eligibility
