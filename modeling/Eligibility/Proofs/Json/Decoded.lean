import Eligibility.Proofs.Json.Sorted
import Eligibility.Proofs.Json.Written

/-!
# The values of documents

A complete document has a value if all its keys and texts are whole and its numbers in range.  The
value may hold fewer members than the document, and in another order, but it nests no more deeply.

**Results.**
* `isSome_ofDocument?_iff`: the documents that have a value;
* `membersToDocuments_of_ofMembers?`: the members of an object become those of its value one by one;
* `nesting_le_of_ofDocument?`: a value nests no more deeply than its document.
-/

namespace Eligibility
namespace Json
namespace Document

open Value (ofDocument? ofItems? ofMembers? membersToDocuments sortMembers)

mutual

/-- Whether the document is complete, every key and text in it whole and every number in range. -/
def Whole : Document → Prop
  | number n => n.value?.isSome = true
  | text content => content.isSome = true
  | list items closed => closed = true ∧ ItemsWhole items
  | object members closed => closed = true ∧ MembersWhole members
  | broken => False
  | _ => True
termination_by structural d => d

/-- Whether this holds of the elements of a list. -/
def ItemsWhole : List Document → Prop
  | [] => True
  | d :: items => d.Whole ∧ ItemsWhole items
termination_by structural items => items

/-- Whether this holds of the members of an object. -/
def MembersWhole : List (Option String × Document) → Prop
  | [] => True
  | (key, d) :: members => key.isSome = true ∧ d.Whole ∧ MembersWhole members
termination_by structural members => members

end

/-! ## Which documents have a value -/

theorem ofMembers?_cons
    (key : Option String) (d : Document) (members : List (Option String × Document)) :
    ofMembers? ((key, d) :: members) =
      key.bind fun k => (ofDocument? d).bind fun v => (ofMembers? members).map ((k, v) :: ·) := by
  cases key with
  | none => rfl
  | some k => cases hd : ofDocument? d <;> simp [ofMembers?, hd]

mutual

/-- A document has a value exactly if it is whole: complete, with every text valid and every number
in range. -/
theorem isSome_ofDocument?_iff (d : Document) : (ofDocument? d).isSome = true ↔ d.Whole := by
  match d with
  | null => exact iff_of_true rfl trivial
  | bool b => exact iff_of_true rfl trivial
  | number n => rw [ofDocument?, Option.isSome_map, Whole]
  | text content => rw [ofDocument?, Option.isSome_map, Whole]
  | broken => simp [ofDocument?, Whole]
  | list items closed =>
      rw [Whole, ← isSome_ofItems?_iff items, ofDocument?]
      cases closed <;> simp
  | object members closed =>
      rw [Whole, ← isSome_ofMembers?_iff members, ofDocument?]
      cases closed <;> simp

theorem isSome_ofItems?_iff (items : List Document) :
    (ofItems? items).isSome = true ↔ ItemsWhole items := by
  match items with
  | [] => exact iff_of_true rfl trivial
  | d :: items =>
      rw [ItemsWhole, ← isSome_ofDocument?_iff d, ← isSome_ofItems?_iff items, ofItems?]
      cases ofDocument? d <;> simp

theorem isSome_ofMembers?_iff (members : List (Option String × Document)) :
    (ofMembers? members).isSome = true ↔ MembersWhole members := by
  match members with
  | [] => exact iff_of_true rfl trivial
  | (key, d) :: members =>
      rw [MembersWhole, ← isSome_ofDocument?_iff d, ← isSome_ofMembers?_iff members,
        ofMembers?_cons]
      cases key <;> cases ofDocument? d <;> simp

end

/-! ## What becomes of the members -/

theorem exists_of_ofItems?
    {d : Document} {items : List Document} {vs : List Value}
    (h : ofItems? (d :: items) = some vs) :
    ∃ v more, ofDocument? d = some v ∧ ofItems? items = some more ∧ vs = v :: more := by
  rw [ofItems?] at h
  split at h
  · rename_i v hv
    obtain ⟨more, hmore, rfl⟩ := Option.map_eq_some_iff.mp h
    exact ⟨v, more, hv, hmore, rfl⟩
  · simp at h

theorem exists_of_ofMembers?
    {key : Option String} {d : Document} {members : List (Option String × Document)}
    {ms : List (String × Value)}
    (h : ofMembers? ((key, d) :: members) = some ms) :
    ∃ k v more, key = some k ∧ ofDocument? d = some v ∧ ofMembers? members = some more ∧
      ms = (k, v) :: more := by
  rw [ofMembers?_cons] at h
  obtain ⟨k, hk, h⟩ := Option.bind_eq_some_iff.mp h
  obtain ⟨v, hv, h⟩ := Option.bind_eq_some_iff.mp h
  obtain ⟨more, hmore, rfl⟩ := Option.map_eq_some_iff.mp h
  exact ⟨k, v, more, hk, hv, hmore, rfl⟩

theorem exists_of_list
    {items : List Document} {closed : Bool} {v : Value}
    (h : ofDocument? (list items closed) = some v) :
    ∃ vs, ofItems? items = some vs ∧ v = .list vs := by
  rw [ofDocument?] at h
  split at h
  · obtain ⟨vs, hvs, rfl⟩ := Option.map_eq_some_iff.mp h
    exact ⟨vs, hvs, rfl⟩
  · simp at h

theorem exists_of_object
    {members : List (Option String × Document)} {closed : Bool} {v : Value}
    (h : ofDocument? (object members closed) = some v) :
    ∃ ms, ofMembers? members = some ms ∧ v = .object (sortMembers ms) := by
  rw [ofDocument?] at h
  split at h
  · obtain ⟨ms, hms, rfl⟩ := Option.map_eq_some_iff.mp h
    exact ⟨ms, hms, rfl⟩
  · simp at h

/-- The document of the value of a document. -/
def decoded (d : Document) : Document :=
  match ofDocument? d with
  | some v => v.toDocument
  | none => broken

theorem decoded_eq
    {d : Document} {v : Value}
    (h : ofDocument? d = some v) :
    d.decoded = v.toDocument := by
  rw [decoded, h]

theorem membersToDocuments_of_ofMembers?
    {members : List (Option String × Document)} {ms : List (String × Value)}
    (h : ofMembers? members = some ms) :
    membersToDocuments ms = members.map fun m => (m.1, m.2.decoded) := by
  induction members generalizing ms with
  | nil =>
      obtain rfl := Option.some.inj h
      rfl
  | cons m members ih =>
      obtain ⟨k, v, more, hk, hv, hmore, rfl⟩ := exists_of_ofMembers? h
      rw [membersToDocuments, List.map_cons, ih hmore, hk, decoded_eq hv]

theorem exists_value_of_mem
    {members : List (Option String × Document)} {ms : List (String × Value)}
    (h : ofMembers? members = some ms)
    {m : Option String × Document} (hm : m ∈ members) :
    ∃ v, ofDocument? m.2 = some v := by
  induction members generalizing ms with
  | nil => simp at hm
  | cons n members ih =>
      obtain ⟨k, v, more, hk, hv, hmore, rfl⟩ := exists_of_ofMembers? h
      rcases List.mem_cons.mp hm with rfl | hm
      · exact ⟨v, hv⟩
      · exact ih hmore hm

/-! ## Nesting -/

theorem membersLevels_le_iff
    {members : List (String × Value)} {n : Nat} :
    Value.membersLevels members ≤ n ↔ ∀ m ∈ members, m.2.levels ≤ n := by
  rw [Value.membersLevels_eq, Value.itemsLevels_le_iff, Value.values, List.forall_mem_map]

theorem membersLevels_sortMembers_le (members : List (String × Value)) :
    Value.membersLevels (sortMembers members) ≤ Value.membersLevels members := by
  have hall := membersLevels_le_iff.mp (Nat.le_refl (Value.membersLevels members))
  exact membersLevels_le_iff.mpr fun m hm => hall m (Value.mem_of_mem_sortMembers hm)

mutual

theorem levels_le_of_ofDocument?
    (d : Document) {v : Value} (h : ofDocument? d = some v) :
    v.levels ≤ d.nesting := by
  match d with
  | null =>
      obtain rfl := Option.some.inj h
      exact Nat.le_refl 0
  | bool b =>
      obtain rfl := Option.some.inj h
      exact Nat.le_refl 0
  | number n =>
      obtain ⟨x, -, rfl⟩ := Option.map_eq_some_iff.mp h
      exact Nat.le_refl 0
  | text content =>
      obtain ⟨s, -, rfl⟩ := Option.map_eq_some_iff.mp h
      exact Nat.le_refl 0
  | broken => simp [ofDocument?] at h
  | list items closed =>
      obtain ⟨vs, hvs, rfl⟩ := exists_of_list h
      exact Nat.succ_le_succ (itemsLevels_le_of_ofItems? items hvs)
  | object members closed =>
      obtain ⟨ms, hms, rfl⟩ := exists_of_object h
      exact Nat.succ_le_succ ((membersLevels_sortMembers_le ms).trans
        (membersLevels_le_of_ofMembers? members hms))

theorem itemsLevels_le_of_ofItems?
    (items : List Document) {vs : List Value} (h : ofItems? items = some vs) :
    Value.itemsLevels vs ≤ itemsNesting items := by
  match items with
  | [] =>
      obtain rfl := Option.some.inj h
      exact Nat.le_refl 0
  | d :: items =>
      obtain ⟨v, more, hv, hmore, rfl⟩ := exists_of_ofItems? h
      have hfirst := levels_le_of_ofDocument? d hv
      have hrest := itemsLevels_le_of_ofItems? items hmore
      rw [Value.itemsLevels, itemsNesting]
      omega

theorem membersLevels_le_of_ofMembers?
    (members : List (Option String × Document)) {ms : List (String × Value)}
    (h : ofMembers? members = some ms) :
    Value.membersLevels ms ≤ membersNesting members := by
  match members with
  | [] =>
      obtain rfl := Option.some.inj h
      exact Nat.le_refl 0
  | (key, d) :: members =>
      obtain ⟨k, v, more, hk, hv, hmore, rfl⟩ := exists_of_ofMembers? h
      have hfirst := levels_le_of_ofDocument? d hv
      have hrest := membersLevels_le_of_ofMembers? members hmore
      rw [Value.membersLevels, membersNesting]
      omega

end

/-- A value nests no more deeply than its document. -/
theorem nesting_le_of_ofDocument?
    (d : Document) {v : Value} (h : ofDocument? d = some v) :
    v.nesting ≤ d.nesting := by
  rw [Value.nesting_eq_levels]
  exact levels_le_of_ofDocument? d h

end Document
end Json
end Eligibility
