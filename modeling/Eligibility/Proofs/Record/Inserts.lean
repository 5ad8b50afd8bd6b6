import Eligibility.Record.Basic
import Mathlib.Data.Finset.Card

/-!
# Records made by inserts

Of the values that are inserted under one name the last one stays.  So what a record gives to a name
depends on the inserts under that name alone, in their order, and neither on the inserts between them
nor on where these stand.

**Results.**
* `Keyed.find?_ofList`: the entry under a key is the last one that was inserted there;
* `Keyed.contains_ofList_iff`, `Keyed.size_ofList`: the keys are those of the inserts, each once;
* `Record.agreeOn_ofList`, `Record.agreeOn_insert`: inserts that do not matter for some names.
-/

namespace Eligibility

universe u

namespace Keyed

variable {α : Type u}

/-- The entries of a list that are inserted under a key, in their order. -/
def under (key : String) (l : List (String × α)) : List (String × α) :=
  l.filter fun e => e.1 == key

theorem find?_foldl_insert
    (m : Keyed α) (l : List (String × α)) (key : String) :
    (l.foldl (fun m e => m.insert e.1 e.2) m).find? key =
      ((under key l).getLast?.map Prod.snd).or (m.find? key) := by
  induction l generalizing m with
  | nil => rfl
  | cons e l ih =>
      rw [List.foldl_cons, ih, find?_insert, under, under, List.filter_cons]
      by_cases hkey : e.1 = key
      · rw [if_pos hkey.symm, if_pos (by simpa using hkey), List.getLast?_cons]
        cases (l.filter fun e => e.1 == key).getLast? <;> simp
      · rw [if_neg (Ne.symm hkey), if_neg (by simpa using hkey)]

/-- The entry under a key is the last one that was inserted there. -/
theorem find?_ofList
    (l : List (String × α)) (key : String) :
    (ofList l).find? key = (under key l).getLast?.map Prod.snd := by
  rw [ofList, find?_foldl_insert, find?_empty, Option.or_none]

theorem mem_keys_foldl_insert
    {m : Keyed α} {l : List (String × α)} {key : String} :
    key ∈ (l.foldl (fun m e => m.insert e.1 e.2) m).keys ↔ key ∈ m.keys ∨ key ∈ l.map Prod.fst := by
  induction l generalizing m with
  | nil => simp
  | cons e l ih => rw [List.foldl_cons, ih, mem_keys_insert, List.map_cons, List.mem_cons, or_assoc]

theorem mem_keys_ofList
    {l : List (String × α)} {key : String} :
    key ∈ (ofList l).keys ↔ key ∈ l.map Prod.fst := by
  rw [ofList, mem_keys_foldl_insert, keys_empty]
  simp

theorem contains_iff
    {m : Keyed α} {key : String} :
    m.contains key = true ↔ key ∈ m.keys := by
  rw [contains, ← not_iff_not, ← find?_eq_none_iff]
  simp

/-- The keys are those of the inserts. -/
theorem contains_ofList_iff
    {l : List (String × α)} {key : String} :
    (ofList l).contains key = true ↔ key ∈ l.map Prod.fst := by
  rw [contains_iff, mem_keys_ofList]

theorem size_ofList (l : List (String × α)) :
    (ofList l).size = (l.map Prod.fst).toFinset.card := by
  have hkeys : (l.map Prod.fst).toFinset = (ofList l).keys.toFinset := by
    ext key
    rw [List.mem_toFinset, List.mem_toFinset, mem_keys_ofList]
  rw [hkeys, List.toFinset_card_of_nodup (ofList l).nodup_keys, length_keys]

end Keyed

namespace Record

/-- The records give each of the names the same value, or both of them give it none. -/
def AgreeOn (names : List String) (r s : Record) : Prop :=
  ∀ name ∈ names, r.find? name = s.find? name

theorem agreeOn_insert
    {names : List String} {name : String}
    (h : name ∉ names)
    (r : Record) (value : FieldValue) :
    AgreeOn names (r.insert name value) r := by
  intro other hother
  rw [Keyed.find?_insert, if_neg]
  rintro rfl
  exact h hother

/-- Records agree on the names under which the same values were inserted in the same order. -/
theorem agreeOn_ofList
    {names : List String} {l l' : List (String × FieldValue)}
    (h : ∀ name ∈ names, Keyed.under name l = Keyed.under name l') :
    AgreeOn names (Keyed.ofList l) (Keyed.ofList l') := by
  intro name hname
  rw [Keyed.find?_ofList, Keyed.find?_ofList, h name hname]

end Record
end Eligibility
