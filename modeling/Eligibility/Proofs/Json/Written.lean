import Eligibility.Proofs.Json.Nesting

/-!
# Written values

The text of a value lays out the lexemes of its document, so that it reads as that document with
nothing left over and nests as deeply as the value.

**Results.**
* `laid_write`: a written value lays out its document;
* `ofText_write`: a written value reads as its document;
* `textNesting_write`: the nesting of a written value.
-/

namespace Eligibility
namespace Json
namespace Value

open Document (lexemes itemLexemes memberLexemes)
open Lexeme (Laid)

mutual

theorem complete_toDocument (v : Value) : v.toDocument.Complete := by
  match v with
  | null => trivial
  | bool b => trivial
  | number n => trivial
  | text s => trivial
  | list items => exact ⟨rfl, itemsComplete_toDocuments items⟩
  | object members => exact ⟨rfl, membersComplete_toDocuments members⟩

theorem itemsComplete_toDocuments (items : List Value) :
    Document.ItemsComplete (itemsToDocuments items) := by
  match items with
  | [] => trivial
  | v :: vs => exact ⟨complete_toDocument v, itemsComplete_toDocuments vs⟩

theorem membersComplete_toDocuments (members : List (String × Value)) :
    Document.MembersComplete (membersToDocuments members) := by
  match members with
  | [] => trivial
  | (_, v) :: ms => exact ⟨complete_toDocument v, membersComplete_toDocuments ms⟩

end

/-! ## The layout -/

theorem laid_mark
    {c : Char} {l : Lexeme} {ls : List Lexeme} {cs : List Char}
    (hmark : Lexeme.mark? c = some l)
    (h : Laid ls cs) :
    Laid (l :: ls) (c :: cs) :=
  .lexeme (.mark hmark) h

theorem laid_quote
    (s : String) {ls : List Lexeme} {cs : List Char}
    (h : Laid ls cs) :
    Laid (.text (some s) :: ls) (quote s ++ cs) := by
  have hspelled := Lexeme.Spelled.text (partsSpelled_escape s.toList)
  rw [assemble_chars, List.reverse_nil, List.nil_append, Option.map_some,
    String.ofList_toList] at hspelled
  exact .lexeme hspelled h

mutual

theorem laid_writeBefore
    (v : Value) {ls : List Lexeme} {cs : List Char} (h : Laid ls cs) :
    Laid (v.toDocument.lexemes ++ ls) (v.writeBefore cs) := by
  match v with
  | null => exact .lexeme .null h
  | bool true => exact .lexeme .true h
  | bool false => exact .lexeme .false h
  | number n => exact .lexeme (.number n.spelled_text) h
  | text s => exact laid_quote s h
  | list [] => exact laid_mark rfl (laid_mark rfl h)
  | list (v :: vs) =>
      have hclose : Laid (.closeList :: ls) (']' :: cs) := laid_mark rfl h
      rw [toDocument, itemsToDocuments, lexemes, List.cons_append, List.append_assoc,
        List.append_assoc, List.singleton_append, writeBefore]
      exact laid_mark rfl (laid_writeBefore v (laid_writeItemsBefore vs hclose))
  | object [] => exact laid_mark rfl (laid_mark rfl h)
  | object ((k, v) :: ms) =>
      have hclose : Laid (.closeObject :: ls) ('\x7d' :: cs) := laid_mark rfl h
      rw [toDocument, membersToDocuments, lexemes, List.cons_append, List.cons_append,
        List.cons_append, List.append_assoc, List.append_assoc, List.singleton_append, writeBefore]
      exact laid_mark rfl (laid_quote k (laid_mark rfl
        (laid_writeBefore v (laid_writeMembersBefore ms hclose))))

theorem laid_writeItemsBefore
    (vs : List Value) {ls : List Lexeme} {cs : List Char} (h : Laid ls cs) :
    Laid (itemLexemes (itemsToDocuments vs) ++ ls) (writeItemsBefore vs cs) := by
  match vs with
  | [] => exact h
  | v :: vs =>
      rw [itemsToDocuments, itemLexemes, List.cons_append, List.append_assoc, writeItemsBefore]
      exact laid_mark rfl (laid_writeBefore v (laid_writeItemsBefore vs h))

theorem laid_writeMembersBefore
    (ms : List (String × Value)) {ls : List Lexeme} {cs : List Char} (h : Laid ls cs) :
    Laid (memberLexemes (membersToDocuments ms) ++ ls) (writeMembersBefore ms cs) := by
  match ms with
  | [] => exact h
  | (k, v) :: ms =>
      rw [membersToDocuments, memberLexemes, List.cons_append, List.cons_append, List.cons_append,
        List.append_assoc, writeMembersBefore]
      exact laid_mark rfl (laid_quote k (laid_mark rfl
        (laid_writeBefore v (laid_writeMembersBefore ms h))))

end

/-- What is written of a value lays out its document, without white space. -/
theorem laid_write (v : Value) : Laid v.toDocument.lexemes v.write.toList := by
  have hlaid := v.laid_writeBefore .nil
  rw [List.append_nil] at hlaid
  rwa [write, String.toList_ofList]

/-- A written value reads as its document. -/
theorem ofText_write (v : Value) :
    Document.ofText v.write = (v.toDocument, []) :=
  Document.ofText_of_laid v.complete_toDocument v.laid_write

/-! ## The nesting -/

mutual

theorem levels_toDocument (v : Value) : v.toDocument.nesting = v.levels := by
  match v with
  | null => rfl
  | bool b => rfl
  | number n => rfl
  | text s => rfl
  | list items => exact congrArg (· + 1) (itemsLevels_toDocuments items)
  | object members => exact congrArg (· + 1) (membersLevels_toDocuments members)

theorem itemsLevels_toDocuments (items : List Value) :
    Document.itemsNesting (itemsToDocuments items) = itemsLevels items := by
  match items with
  | [] => rfl
  | v :: vs =>
      rw [itemsToDocuments, Document.itemsNesting, itemsLevels, levels_toDocument v,
        itemsLevels_toDocuments vs]

theorem membersLevels_toDocuments (members : List (String × Value)) :
    Document.membersNesting (membersToDocuments members) = membersLevels members := by
  match members with
  | [] => rfl
  | (k, v) :: ms =>
      rw [membersToDocuments, Document.membersNesting, membersLevels, levels_toDocument v,
        membersLevels_toDocuments ms]

end

theorem nesting_toDocument (v : Value) : v.toDocument.nesting = v.nesting := by
  rw [levels_toDocument, nesting_eq_levels]

/-- The text of a value nests as the value does. -/
theorem textNesting_write (v : Value) :
    textNesting v.write = v.nesting := by
  rw [Document.textNesting_of_laid v.laid_write, nesting_toDocument]

end Value
end Json
end Eligibility
