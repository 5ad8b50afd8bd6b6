import Eligibility.Proofs.Json.Sorted
import Eligibility.Stored.Reading

/-!
# Reading the parts of a node

What a member adds to a node depends on the member alone, and no two members under one known key are
accepted.  So the order of the members does not matter, and a node reads the same from a value and
from the value with its members in the order of their keys.

**Results.**
* `fill?_comm`: two parts can be read in either order;
* `readMembers?_perm`: the members of a node can be read in any order;
* `read?_sorted`: putting the members of a value in order does not change the node;
* `read?_toDocument`: the reader of values and the reader of documents agree.
-/

namespace Eligibility
namespace Stored

open Json

/-- What one part of a node holds. -/
inductive Content
  | kind (kind : Kind)
  | connective (connective : Option Connective)
  | value (text : Option String)
  | left (child : Option Node)
  | right (child : Option Node)

/-- The content of a part; `child` reads the same document or value as a node. -/
def Content.read? (part : Part) (x : Surface) (child : Unit → Option Node) : Option Content :=
  match part with
  | .kind => (x.name?.bind Kind.ofName?).map .kind
  | .connective => (x.optional fun _ => x.name?.bind Connective.ofWord?).map .connective
  | .value => (x.optional fun _ => x.text?).map .value
  | .left => (x.optional child).map .left
  | .right => (x.optional child).map .right

namespace Parts

/-- Fills in a part that is still empty. -/
def put? (p : Parts) : Content → Option Parts
  | .kind v => if p.kind.isSome then none else some { p with kind := some v }
  | .connective v => if p.connective.isSome then none else some { p with connective := some v }
  | .value v => if p.value.isSome then none else some { p with value := some v }
  | .left v => if p.left.isSome then none else some { p with left := some v }
  | .right v => if p.right.isSome then none else some { p with right := some v }

theorem fill?_eq
    (p : Parts) (part : Part) (x : Surface) (child : Unit → Option Node) :
    p.fill? part x child = (Content.read? part x child).bind p.put? := by
  have hguard {α : Type} (b : Bool) (x : Option α) (f : α → Parts) :
      (if b then none else x.map f) = x.bind fun v => if b then none else some (f v) := by
    cases b <;> cases x <;> rfl
  cases part <;>
  · rw [fill?, hguard, Content.read?, Option.bind_map]
    rfl

theorem put?_comm
    (p : Parts) (c d : Content) :
    ((p.put? c).bind fun q => q.put? d) = (p.put? d).bind fun q => q.put? c := by
  obtain ⟨kind, connective, value, left, right⟩ := p
  -- each content guards and sets a field of its own, or both are for the same field
  cases c <;> cases d <;> simp only [put?] <;> split <;> (try split) <;> simp_all

/-- Two parts can be read in either order. -/
theorem fill?_comm
    (p : Parts) (first second : Part) (x y : Surface) (child child' : Unit → Option Node) :
    ((p.fill? first x child).bind fun q => q.fill? second y child') =
      (p.fill? second y child').bind fun q => q.fill? first x child := by
  simp only [fill?_eq]
  cases Content.read? first x child with
  | none =>
      cases Content.read? second y child' with
      | none => rfl
      | some b => cases h : p.put? b <;> simp [h]
  | some a =>
      cases Content.read? second y child' with
      | none => cases h : p.put? a <;> simp [h]
      | some b => exact put?_comm p a b

/-! ### Parts as they are written -/

variable {p : Parts} {allowance : Allowance} {child : Unit → Option Node}

theorem fill?_kind
    (h : p.kind = none)
    (kind : Kind) :
    p.fill? .kind (Document.surface allowance (.text (some kind.name))) child =
      some { p with kind := some kind } := by
  have hname : Kind.ofName? kind.name = some kind := by cases kind <;> decide
  simp [fill?, h, Document.surface, Document.name?, hname]

theorem fill?_connective
    (h : p.connective = none)
    (k : Connective) :
    p.fill? .connective (Document.surface allowance (.text (some k.word))) child =
      some { p with connective := some (some k) } := by
  have hword : Connective.ofWord? k.word = some k := Connective.ofWord?_eq_some_iff.mpr rfl
  simp [fill?, h, Document.surface, Surface.optional, Document.isNull, Document.name?, hword]

theorem fill?_value
    (h : p.value = none)
    (text : String) :
    p.fill? .value (Document.surface allowance (.text (some text))) child =
      some { p with value := some (some text) } := by
  simp [fill?, h, Document.surface, Surface.optional, Document.isNull, Document.text?]

theorem optional_of_read?
    {d : Document} {n : Node}
    (h : Node.read? allowance d = some n) :
    ((d.surface allowance).optional fun _ => Node.read? allowance d) = some (some n) := by
  have hnull : d.isNull = false := by
    cases d with
    | null => simp [Node.read?] at h
    | _ => rfl
  simp [Surface.optional, Document.surface, hnull, h]

theorem fill?_left
    {d : Document} {n : Node}
    (h : p.left = none)
    (hread : Node.read? allowance d = some n) :
    (p.fill? .left (d.surface allowance) fun _ => Node.read? allowance d) =
      some { p with left := some (some n) } := by
  simp [fill?, h, optional_of_read? hread]

theorem fill?_right
    {d : Document} {n : Node}
    (h : p.right = none)
    (hread : Node.read? allowance d = some n) :
    (p.fill? .right (d.surface allowance) fun _ => Node.read? allowance d) =
      some { p with right := some (some n) } := by
  simp [fill?, h, optional_of_read? hread]

end Parts

namespace Node

/-- Reads one member of an object. -/
def readMember? (allowance : Allowance) (p : Parts) (m : Option String × Document) :
    Option Parts :=
  m.1.bind fun key =>
    match Part.ofKey? key with
    | none => some p
    | some part => p.fill? part (m.2.surface allowance) fun _ => read? allowance m.2

theorem readMembers?_cons
    (allowance : Allowance) (p : Parts) (closed : Bool) (m : Option String × Document)
    (members : List (Option String × Document)) :
    readMembers? allowance p closed (m :: members) =
      (readMember? allowance p m).bind fun q => readMembers? allowance q closed members := by
  obtain ⟨key, d⟩ := m
  cases key with
  | none => rfl
  | some key =>
      rw [readMembers?, readMember?, Option.bind_some]
      cases Part.ofKey? key with
      | none => rfl
      | some part =>
          simp only
          cases p.fill? part (d.surface allowance) fun _ => read? allowance d <;> rfl

theorem readMember?_comm
    (allowance : Allowance) (p : Parts) (m n : Option String × Document) :
    ((readMember? allowance p m).bind fun q => readMember? allowance q n) =
      (readMember? allowance p n).bind fun q => readMember? allowance q m := by
  obtain ⟨key, d⟩ := m
  obtain ⟨key', e⟩ := n
  unfold readMember?
  cases key with
  | none => simp
  | some key =>
      cases key' with
      | none => simp
      | some key' =>
          simp only [Option.bind_some]
          cases Part.ofKey? key with
          | none => cases Part.ofKey? key' <;> simp
          | some part =>
              cases Part.ofKey? key' with
              | none => simp
              | some part' => exact Parts.fill?_comm p part part' _ _ _ _

/-- The members of a node can be read in any order. -/
theorem readMembers?_perm
    {first second : List (Option String × Document)}
    (h : first.Perm second)
    (allowance : Allowance) (p : Parts) (closed : Bool) :
    readMembers? allowance p closed first = readMembers? allowance p closed second := by
  induction h generalizing p with
  | nil => rfl
  | cons m h ih => simp only [readMembers?_cons, ih]
  | swap m n rest =>
      simp only [readMembers?_cons, ← Option.bind_assoc]
      rw [readMember?_comm]
  | trans h h' ih ih' => exact (ih p).trans (ih' p)

/-! ## Members in the order of their keys -/

open Value (sortedItems sortedMembers sortMembers itemsToDocuments membersToDocuments
  ItemsDistinct MembersDistinct)

theorem membersToDocuments_eq_map (members : List (String × Value)) :
    membersToDocuments members = members.map fun m => (some m.1, m.2.toDocument) := by
  induction members with
  | nil => rfl
  | cons m members ih => exact congrArg ((some m.1, m.2.toDocument) :: ·) ih

theorem membersToDocuments_perm
    {first second : List (String × Value)}
    (h : first.Perm second) :
    (membersToDocuments first).Perm (membersToDocuments second) := by
  rw [membersToDocuments_eq_map, membersToDocuments_eq_map]
  exact h.map _

theorem name?_two
    (allowance : Allowance) {members : List (Option String × Document)}
    (h : 2 ≤ members.length) :
    (Document.object members true).name? allowance = none := by
  match members with
  | [] => simp at h
  | [_] => simp at h
  | m :: n :: members => simp [Document.name?]

theorem name?_sorted
    (allowance : Allowance) {v : Value} (h : v.Distinct) :
    v.sorted.toDocument.name? allowance = v.toDocument.name? allowance := by
  match v with
  | .null => rfl
  | .bool b => rfl
  | .number n => rfl
  | .text s => rfl
  | .list items => rfl
  | .object [] => rfl
  | .object [(k, v)] => cases v <;> rfl
  | .object (m :: n :: members) =>
      have hlength := (Value.sortMembers_sortedMembers_perm h.1).length_eq
      have hsorted : 2 ≤ (membersToDocuments
          (sortMembers (sortedMembers (m :: n :: members)))).length := by
        rw [membersToDocuments_eq_map, List.length_map, hlength]
        simp [sortedMembers]
      have htwo : 2 ≤ (membersToDocuments (m :: n :: members)).length := by
        simp [membersToDocuments]
      exact (name?_two allowance hsorted).trans (name?_two allowance htwo).symm

theorem surface_sorted
    (allowance : Allowance) {v : Value} (h : v.Distinct) :
    v.sorted.toDocument.surface allowance = v.toDocument.surface allowance := by
  have htext : v.sorted.toDocument.text? = v.toDocument.text? := by cases v <;> rfl
  have hnull : v.sorted.toDocument.isNull = v.toDocument.isNull := by cases v <;> rfl
  rw [Document.surface, Document.surface, name?_sorted allowance h, htext, hnull]

mutual

/-- Putting the members of a value in order does not change the node. -/
theorem read?_sorted
    (v : Value) (h : v.Distinct) (allowance : Allowance) :
    read? allowance v.sorted.toDocument = read? allowance v.toDocument := by
  match v with
  | .null => rfl
  | .bool b => rfl
  | .number n => rfl
  | .text s => rfl
  | .list items =>
      rw [Value.sorted, Value.toDocument, Value.toDocument, read?, read?]
      cases enter? allowance with
      | none => rfl
      | some inside =>
          simp only
          rw [readItems?_sorted items h]
  | .object members =>
      have hperm := membersToDocuments_perm (Value.sortMembers_sortedMembers_perm h.1)
      rw [Value.sorted, Value.toDocument, Value.toDocument, read?, read?]
      cases enter? allowance with
      | none => rfl
      | some inside =>
          simp only
          rw [readMembers?_perm hperm, readMembers?_sorted members h.2]

theorem readItems?_sorted
    (items : List Value) (h : ItemsDistinct items)
    (allowance : Allowance) (p : Parts) (position : Nat) (closed : Bool) :
    readItems? allowance p position closed (itemsToDocuments (sortedItems items)) =
      readItems? allowance p position closed (itemsToDocuments items) := by
  match items with
  | [] => rfl
  | v :: vs =>
      obtain ⟨hv, hvs⟩ := h
      rw [sortedItems, itemsToDocuments, itemsToDocuments, readItems?, readItems?]
      cases Part.ofPosition? position with
      | none => rfl
      | some part =>
          simp only
          rw [surface_sorted allowance hv, read?_sorted v hv allowance]
          cases p.fill? part (v.toDocument.surface allowance) fun _ =>
              read? allowance v.toDocument with
          | none => rfl
          | some q => exact readItems?_sorted vs hvs allowance q (position + 1) closed

theorem readMembers?_sorted
    (members : List (String × Value)) (h : MembersDistinct members)
    (allowance : Allowance) (p : Parts) (closed : Bool) :
    readMembers? allowance p closed (membersToDocuments (sortedMembers members)) =
      readMembers? allowance p closed (membersToDocuments members) := by
  match members with
  | [] => rfl
  | (k, v) :: ms =>
      obtain ⟨hv, hms⟩ := h
      rw [sortedMembers, membersToDocuments, membersToDocuments, readMembers?, readMembers?]
      cases Part.ofKey? k with
      | none => exact readMembers?_sorted ms hms allowance p closed
      | some part =>
          simp only
          rw [surface_sorted allowance hv, read?_sorted v hv allowance]
          cases p.fill? part (v.toDocument.surface allowance) fun _ =>
              read? allowance v.toDocument with
          | none => rfl
          | some q => exact readMembers?_sorted ms hms allowance q closed

end

/-! ## Values -/

theorem surface_toDocument (v : Value) : v.toDocument.surface none = v.surface := by
  match v with
  | .null => rfl
  | .bool b => rfl
  | .number n => rfl
  | .text s => rfl
  | .list items => rfl
  | .object [] => rfl
  | .object [(k, v)] => cases v <;> rfl
  | .object ((_, v) :: _ :: _) => cases v <;> rfl

mutual

/-- A value and its document are read as the same node. -/
theorem read?_toDocument (v : Value) : read? none v.toDocument = ofValue? v := by
  match v with
  | .null => rfl
  | .bool b => rfl
  | .number n => rfl
  | .text s => rfl
  | .list items =>
      rw [Value.toDocument, read?, ofValue?]
      simp only [enter?]
      rw [readItems?_toDocuments items]
  | .object members =>
      rw [Value.toDocument, read?, ofValue?]
      simp only [enter?]
      rw [readMembers?_toDocuments members]

theorem readItems?_toDocuments
    (items : List Value) (p : Parts) (position : Nat) :
    readItems? none p position true (itemsToDocuments items) = ofItems? p position items := by
  match items with
  | [] => rfl
  | v :: vs =>
      rw [itemsToDocuments, readItems?, ofItems?]
      cases Part.ofPosition? position with
      | none => rfl
      | some part =>
          simp only [surface_toDocument, read?_toDocument v]
          cases p.fill? part v.surface fun _ => ofValue? v with
          | none => rfl
          | some q => exact readItems?_toDocuments vs q (position + 1)

theorem readMembers?_toDocuments
    (members : List (String × Value)) (p : Parts) :
    readMembers? none p true (membersToDocuments members) = ofMembers? p members := by
  match members with
  | [] => rfl
  | (k, v) :: ms =>
      rw [membersToDocuments, readMembers?, ofMembers?]
      cases Part.ofKey? k with
      | none => exact readMembers?_toDocuments ms p
      | some part =>
          simp only [surface_toDocument, read?_toDocument v]
          cases p.fill? part v.surface fun _ => ofValue? v with
          | none => rfl
          | some q => exact readMembers?_toDocuments ms q

end

end Node

end Stored
end Eligibility
