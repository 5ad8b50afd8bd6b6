/-!
# Entries under distinct keys

A `Keyed α` maps texts to entries.  The keys are pairwise distinct and keep the order in which they
were first inserted; inserting under a known key replaces its entry in place.

**Results.**
* `find?_insert`: what is found after an insertion;
* `keys_insert`: an insertion adds its key at the end unless the key is known;
* `mem_keys_insert`, `size_insert_le`: the keys and the number of entries after an insertion;
* `find?_eq_none_iff`: nothing is found exactly under the keys that are not there.
-/

namespace Eligibility

universe u

/-- Entries under pairwise distinct keys. -/
structure Keyed (α : Type u) where
  /-- Keys and entries in the order of first insertion. -/
  entries : List (String × α)
  /-- No key occurs twice. -/
  distinct : (entries.map Prod.fst).Nodup
deriving DecidableEq

namespace Keyed

variable {α : Type u}

/-- No entries. -/
def empty : Keyed α :=
  ⟨[], List.nodup_nil⟩

instance : Inhabited (Keyed α) :=
  ⟨empty⟩

/-- The keys in the order of first insertion. -/
def keys (m : Keyed α) : List String :=
  m.entries.map Prod.fst

/-- The number of entries. -/
def size (m : Keyed α) : Nat :=
  m.entries.length

/-- Replaces the entry under a key, or adds one at the end. -/
def put (key : String) (entry : α) : List (String × α) → List (String × α)
  | [] => [(key, entry)]
  | (k, a) :: rest => if k = key then (k, entry) :: rest else (k, a) :: put key entry rest

/-- Replacing keeps every key in its place, and a new key comes last. -/
theorem keys_put (key : String) (entry : α) (l : List (String × α)) :
    (put key entry l).map Prod.fst =
      if key ∈ l.map Prod.fst then l.map Prod.fst else l.map Prod.fst ++ [key] := by
  induction l with
  | nil => simp [put]
  | cons head rest ih =>
    obtain ⟨k, a⟩ := head
    by_cases h : k = key
    · simp [put, h]
    · have h' : ¬ key = k := fun e => h e.symm
      simp only [put, h, if_false, List.map_cons, ih, List.mem_cons, h', false_or]
      split <;> simp

/-- Inserts an entry, in place of the one that the key may already have. -/
def insert (m : Keyed α) (key : String) (entry : α) : Keyed α where
  entries := put key entry m.entries
  distinct := by
    have hm := m.distinct
    rw [keys_put]
    split
    · exact hm
    · rename_i h
      refine List.nodup_append.2 ⟨hm, by simp, ?_⟩
      intro k hk k' hk'
      have hk'' : k' = key := by simpa using hk'
      rw [hk'']
      exact fun e => h (e ▸ hk)

/-- The entry under a key. -/
def find? (m : Keyed α) (key : String) : Option α :=
  (m.entries.find? fun e => e.1 == key).map Prod.snd

/-- Whether the key has an entry. -/
def contains (m : Keyed α) (key : String) : Bool :=
  (m.find? key).isSome

/-- The entries of a list, a later one replacing an earlier one under the same key. -/
def ofList (l : List (String × α)) : Keyed α :=
  l.foldl (fun m e => m.insert e.1 e.2) empty

/-- An insertion adds its key at the end unless the key is known. -/
theorem keys_insert (m : Keyed α) (key : String) (entry : α) :
    (m.insert key entry).keys = if key ∈ m.keys then m.keys else m.keys ++ [key] :=
  keys_put key entry m.entries

/-- The entry put under a key is found there, and nothing changes under the others. -/
theorem find?_put (key other : String) (entry : α) (l : List (String × α)) :
    ((put key entry l).find? fun e => e.1 == other).map Prod.snd =
      if other = key then some entry else (l.find? fun e => e.1 == other).map Prod.snd := by
  induction l with
  | nil =>
    by_cases h : other = key
    · simp [put, h]
    · have h' : ¬ key = other := fun e => h e.symm
      simp [put, h, h']
  | cons head rest ih =>
    obtain ⟨k, a⟩ := head
    by_cases hk : k = key
    · by_cases ho : other = key
      · simp [put, hk, ho]
      · have ho' : ¬ key = other := fun e => ho e.symm
        simp [put, hk, ho, ho']
    · by_cases ho : k = other
      · subst ho
        simp [put, hk]
      · simp only [put, hk, if_false, List.find?_cons, ho, beq_eq_false_iff_ne.2, ne_eq,
          not_false_eq_true, ih]

/-- What is found after an insertion: the new entry under its key, the old ones elsewhere. -/
theorem find?_insert (m : Keyed α) (key other : String) (entry : α) :
    (m.insert key entry).find? other = if other = key then some entry else m.find? other :=
  find?_put key other entry m.entries

/-- Nothing is found exactly under the keys that are not there. -/
theorem find?_eq_none_iff {m : Keyed α} {key : String} : m.find? key = none ↔ key ∉ m.keys := by
  simp only [find?, keys, Option.map_eq_none_iff, List.find?_eq_none, beq_iff_eq, List.mem_map,
    not_exists, not_and]

theorem mem_keys_of_find? {m : Keyed α} {key : String} {entry : α} (h : m.find? key = some entry) :
    key ∈ m.keys := by
  refine Decidable.byContradiction fun hkey => ?_
  rw [find?_eq_none_iff.2 hkey] at h
  cases h

theorem nodup_keys (m : Keyed α) : m.keys.Nodup :=
  m.distinct

theorem length_keys (m : Keyed α) : m.keys.length = m.size :=
  List.length_map _

/-- After an insertion the keys are those before it and the new one. -/
theorem mem_keys_insert {m : Keyed α} {key other : String} {entry : α} :
    other ∈ (m.insert key entry).keys ↔ other ∈ m.keys ∨ other = key := by
  rw [keys_insert]
  split
  · rename_i hkey
    exact ⟨.inl, fun h => h.elim id fun h => h ▸ hkey⟩
  · rw [List.mem_append, List.mem_singleton]

/-- An insertion adds at most one entry. -/
theorem size_insert_le (m : Keyed α) (key : String) (entry : α) :
    (m.insert key entry).size ≤ m.size + 1 := by
  rw [← length_keys, ← length_keys, keys_insert]
  split <;> simp

@[simp] theorem find?_empty (key : String) : (empty : Keyed α).find? key = none :=
  rfl

@[simp] theorem keys_empty : (empty : Keyed α).keys = [] :=
  rfl

end Keyed
end Eligibility
