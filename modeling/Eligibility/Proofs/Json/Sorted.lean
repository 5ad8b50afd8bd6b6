import Eligibility.Json.Nesting

/-!
# Members in the order of their keys

Where no object has two members with the same key, putting the members in order only moves them: no
member is lost, and the value nests as deeply as before.

**Results.**
* `keyed_sortMembers_perm`: members with different keys are moved alone, whatever the others are;
* `nesting_sorted`: the nesting of a value with its members in order.
-/

namespace Eligibility
namespace Json
namespace Value

mutual

/-- Whether the members of every object have different keys. -/
def Distinct : Value → Prop
  | list items => ItemsDistinct items
  | object members => (members.map Prod.fst).Nodup ∧ MembersDistinct members
  | _ => True
termination_by structural v => v

/-- Whether this holds of the elements of a list. -/
def ItemsDistinct : List Value → Prop
  | [] => True
  | v :: vs => v.Distinct ∧ ItemsDistinct vs
termination_by structural items => items

/-- Whether this holds of the values of the members of an object. -/
def MembersDistinct : List (String × Value) → Prop
  | [] => True
  | (_, v) :: ms => v.Distinct ∧ MembersDistinct ms
termination_by structural members => members

end

theorem insertMember_perm
    {key : String} {members : List (String × Value)}
    (h : key ∉ members.map Prod.fst)
    (value : Value) :
    (insertMember key value members).Perm ((key, value) :: members) := by
  induction members with
  | nil => exact .refl _
  | cons m members ih =>
      simp only [List.map_cons, List.mem_cons, not_or] at h
      obtain ⟨hne, hmore⟩ := h
      obtain ⟨k, v⟩ := m
      rw [insertMember, if_neg hne]
      split
      · exact .refl _
      · exact ((ih hmore).cons _).trans (.swap _ _ _)

theorem mem_of_mem_insertMember
    {key : String} {value : Value} {members : List (String × Value)} {m : String × Value}
    (h : m ∈ insertMember key value members) :
    m = (key, value) ∨ m ∈ members := by
  induction members with
  | nil => exact .inl (List.mem_singleton.mp h)
  | cons n members ih =>
      obtain ⟨k, v⟩ := n
      rw [insertMember] at h
      split at h
      · exact (List.mem_cons.mp h).imp_right (List.mem_cons_of_mem _)
      · split at h
        · exact List.mem_cons.mp h
        · rcases List.mem_cons.mp h with rfl | h
          · exact .inr List.mem_cons_self
          · exact (ih h).imp_right (List.mem_cons_of_mem _)

/-- Of members with the same key one stays, and no other is put in. -/
theorem mem_of_mem_sortMembers
    {members : List (String × Value)} {m : String × Value}
    (h : m ∈ sortMembers members) :
    m ∈ members := by
  have hfold (before after : List (String × Value))
      (h : m ∈ after.foldl (fun sorted n => insertMember n.1 n.2 sorted) before) :
      m ∈ after ++ before := by
    induction after generalizing before with
    | nil => exact h
    | cons n after ih =>
        rcases List.mem_append.mp (ih _ h) with h | h
        · exact List.mem_append_left _ (List.mem_cons_of_mem _ h)
        · rcases mem_of_mem_insertMember h with rfl | h
          · exact List.mem_append_left _ List.mem_cons_self
          · exact List.mem_append_right _ h
  simpa using hfold [] members h

section

variable (p : String → Bool)

/-- The members whose keys satisfy a condition. -/
def keyed (members : List (String × Value)) : List (String × Value) :=
  members.filter fun m => p m.1

theorem keyed_cons (m : String × Value) (members : List (String × Value)) :
    keyed p (m :: members) = if p m.1 then m :: keyed p members else keyed p members :=
  List.filter_cons

theorem keyed_append (first second : List (String × Value)) :
    keyed p (first ++ second) = keyed p first ++ keyed p second :=
  List.filter_append ..

theorem keyed_insertMember
    {key : String}
    (h : p key = false)
    (value : Value) (members : List (String × Value)) :
    keyed p (insertMember key value members) = keyed p members := by
  induction members with
  | nil => simp [insertMember, keyed, h]
  | cons m members ih =>
      obtain ⟨k, v⟩ := m
      rw [insertMember]
      split
      · rename_i hk
        simp [keyed, ← hk, h]
      · split
        · simp [keyed, h]
        · rw [keyed_cons, ih, keyed_cons]

theorem keyed_insertMember_perm
    {key : String} {members : List (String × Value)}
    (h : p key = true → key ∉ (keyed p members).map Prod.fst)
    (value : Value) :
    (keyed p (insertMember key value members)).Perm (keyed p ((key, value) :: members)) := by
  cases hp : p key with
  | false => rw [keyed_cons, if_neg (by simp [hp]), keyed_insertMember p hp]
  | true =>
      have hkey : key ∉ members.map Prod.fst := by
        intro hmem
        obtain ⟨m, hm, hmkey⟩ := List.mem_map.mp hmem
        exact h hp (List.mem_map.mpr ⟨m, List.mem_filter.mpr ⟨hm, by rwa [hmkey]⟩, hmkey⟩)
      exact (insertMember_perm hkey value).filter _

/-- Members that satisfy the condition under different keys are moved alone, whatever becomes of the
others. -/
theorem keyed_sortMembers_perm
    {members : List (String × Value)}
    (h : ((keyed p members).map Prod.fst).Nodup) :
    (keyed p (sortMembers members)).Perm (keyed p members) := by
  have hfold (before after : List (String × Value))
      (hkeys : ((keyed p (after ++ before)).map Prod.fst).Nodup) :
      (keyed p (after.foldl (fun sorted m => insertMember m.1 m.2 sorted) before)).Perm
        (keyed p (after ++ before)) := by
    induction after generalizing before with
    | nil => exact .refl _
    | cons m after ih =>
        have hmoved : (keyed p (after ++ insertMember m.1 m.2 before)).Perm
            (keyed p (m :: (after ++ before))) := by
          have hm : p m.1 = true → m.1 ∉ (keyed p before).map Prod.fst := by
            intro hp hbefore
            rw [List.cons_append, keyed_cons, if_pos hp, List.map_cons, List.nodup_cons,
              keyed_append, List.map_append] at hkeys
            exact hkeys.1 (List.mem_append_right _ hbefore)
          rw [keyed_append]
          refine ((keyed_insertMember_perm p hm m.2).append_left _).trans ?_
          rw [← keyed_append]
          exact List.perm_middle.filter _
        exact (ih _ ((hmoved.map Prod.fst).nodup_iff.mpr hkeys)).trans hmoved
  have hall := hfold [] members (by rwa [List.append_nil])
  rwa [List.append_nil] at hall

end

theorem sortMembers_perm
    {members : List (String × Value)}
    (h : (members.map Prod.fst).Nodup) :
    (sortMembers members).Perm members := by
  have hall (members : List (String × Value)) : keyed (fun _ => true) members = members :=
    List.filter_eq_self.mpr fun _ _ => rfl
  have hperm := keyed_sortMembers_perm (fun _ => true) ((hall members).symm ▸ h)
  rwa [hall, hall] at hperm

theorem keys_sortedMembers (members : List (String × Value)) :
    (sortedMembers members).map Prod.fst = members.map Prod.fst := by
  induction members with
  | nil => rfl
  | cons m members ih => exact congrArg (m.1 :: ·) ih

theorem sortMembers_sortedMembers_perm
    {members : List (String × Value)}
    (h : (members.map Prod.fst).Nodup) :
    (sortMembers (sortedMembers members)).Perm (sortedMembers members) :=
  sortMembers_perm (by rwa [keys_sortedMembers])

theorem membersLevels_perm
    {first second : List (String × Value)}
    (h : first.Perm second) :
    membersLevels first = membersLevels second := by
  induction h with
  | nil => rfl
  | cons m h ih => rw [membersLevels, membersLevels, ih]
  | swap m n rest =>
      simp only [membersLevels]
      omega
  | trans h h' ih ih' => exact ih.trans ih'

mutual

theorem levels_sorted
    (v : Value) (h : v.Distinct) :
    v.sorted.levels = v.levels := by
  match v with
  | null => rfl
  | bool b => rfl
  | number n => rfl
  | text s => rfl
  | list items => exact congrArg (· + 1) (itemsLevels_sorted items h)
  | object members =>
      obtain ⟨hkeys, hmembers⟩ := h
      have hperm := membersLevels_perm (sortMembers_sortedMembers_perm hkeys)
      exact congrArg (· + 1) (hperm.trans (membersLevels_sorted members hmembers))

theorem itemsLevels_sorted
    (items : List Value) (h : ItemsDistinct items) :
    itemsLevels (sortedItems items) = itemsLevels items := by
  match items with
  | [] => rfl
  | v :: vs =>
      obtain ⟨hv, hvs⟩ := h
      rw [sortedItems, itemsLevels, itemsLevels, levels_sorted v hv, itemsLevels_sorted vs hvs]

theorem membersLevels_sorted
    (members : List (String × Value)) (h : MembersDistinct members) :
    membersLevels (sortedMembers members) = membersLevels members := by
  match members with
  | [] => rfl
  | (k, v) :: ms =>
      obtain ⟨hv, hms⟩ := h
      rw [sortedMembers, membersLevels, membersLevels, levels_sorted v hv,
        membersLevels_sorted ms hms]

end

/-- The order of members does not matter for how deeply a value nests. -/
theorem nesting_sorted
    (v : Value) (h : v.Distinct) :
    v.sorted.nesting = v.nesting := by
  rw [nesting_eq_levels, nesting_eq_levels, levels_sorted v h]

end Value
end Json
end Eligibility
