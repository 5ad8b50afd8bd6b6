import Eligibility.Engine.Cache
import Mathlib.Data.Finset.Card

/-!
# What a cache keeps

A cache is used by fetching rules and by clearing it.  What it keeps is always the formula that its
rule reads as, so that fetching answers like reading.  Which rules it keeps depends on their order,
but not how many: all that were read since the last clearing while there is room, and as many as
there is room for afterwards.

**Results.**
* `fetch_fst`: fetching from a faithful cache answers like reading;
* `Faithful.fetch`, `Remembers.use`: what one use preserves;
* `size_useAll`: the number of kept formulas after any uses.
-/

namespace Eligibility
namespace Cache

/-- Every formula that is kept is what its rule reads as. -/
def Faithful (c : Cache) : Prop :=
  ∀ rule f, c.find? rule = some f → Formula.ofText c.strict rule = .ok f

@[simp] theorem strict_keep
    (c : Cache) (rule : String) (f : Formula) :
    (c.keep rule f).strict = c.strict := by
  unfold keep
  split <;> rfl

@[simp] theorem capacity_keep
    (c : Cache) (rule : String) (f : Formula) :
    (c.keep rule f).capacity = c.capacity := by
  unfold keep
  split <;> rfl

/-- Fetching finds the formula, or reads it and may keep it, or fails and changes nothing. -/
theorem fetch_cases
    (c : Cache) (rule : String) :
    (∃ f, c.find? rule = some f ∧ c.fetch rule = (.ok f, c)) ∨
    (∃ f, c.find? rule = none ∧ Formula.ofText c.strict rule = .ok f ∧
      c.fetch rule = (.ok f, c.keep rule f)) ∨
    (∃ fault, c.find? rule = none ∧ Formula.ofText c.strict rule = .error fault ∧
      c.fetch rule = (.error fault, c)) := by
  cases hfind : c.find? rule with
  | some f => exact .inl ⟨f, rfl, by simp only [fetch, hfind]⟩
  | none =>
      cases hread : Formula.ofText c.strict rule with
      | ok f => exact .inr (.inl ⟨f, rfl, rfl, by simp only [fetch, hfind, hread]⟩)
      | error fault => exact .inr (.inr ⟨fault, rfl, rfl, by simp only [fetch, hfind, hread]⟩)

@[simp] theorem strict_fetch
    (c : Cache) (rule : String) :
    (c.fetch rule).2.strict = c.strict := by
  rcases fetch_cases c rule with ⟨f, -, h⟩ | ⟨f, -, -, h⟩ | ⟨fault, -, -, h⟩ <;> simp [h]

@[simp] theorem capacity_fetch
    (c : Cache) (rule : String) :
    (c.fetch rule).2.capacity = c.capacity := by
  rcases fetch_cases c rule with ⟨f, -, h⟩ | ⟨f, -, -, h⟩ | ⟨fault, -, -, h⟩ <;> simp [h]

/-- A rule that cannot be fetched leaves the cache as it was. -/
theorem fetch_snd_of_error
    {c : Cache} {rule : String} {fault : Fault}
    (h : (c.fetch rule).1 = .error fault) :
    (c.fetch rule).2 = c := by
  rcases fetch_cases c rule with ⟨f, -, hfetch⟩ | ⟨f, -, -, hfetch⟩ | ⟨_, -, -, hfetch⟩
  · rw [hfetch]
  · simp [hfetch] at h
  · rw [hfetch]

/-! ## Uses -/

/-- What is done with a cache. -/
inductive Use
  | fetch (rule : String)
  | clear

/-- The cache after a use. -/
def use (c : Cache) : Use → Cache
  | .fetch rule => (c.fetch rule).2
  | .clear => c.clear

/-- The cache after several uses. -/
def useAll (c : Cache) (uses : List Use) : Cache :=
  uses.foldl use c

@[simp] theorem strict_use
    (c : Cache) (u : Use) :
    (c.use u).strict = c.strict := by
  cases u with
  | fetch rule => exact strict_fetch c rule
  | clear => rfl

@[simp] theorem capacity_use
    (c : Cache) (u : Use) :
    (c.use u).capacity = c.capacity := by
  cases u with
  | fetch rule => exact capacity_fetch c rule
  | clear => rfl

@[simp] theorem strict_useAll
    (c : Cache) (uses : List Use) :
    (c.useAll uses).strict = c.strict := by
  induction uses generalizing c with
  | nil => rfl
  | cons u uses ih => exact (ih (c.use u)).trans (strict_use c u)

@[simp] theorem capacity_useAll
    (c : Cache) (uses : List Use) :
    (c.useAll uses).capacity = c.capacity := by
  induction uses generalizing c with
  | nil => rfl
  | cons u uses ih => exact (ih (c.use u)).trans (capacity_use c u)

/-! ## The formulas -/

theorem faithful_empty (capacity : Nat) (strict : Bool) : (empty capacity strict).Faithful := by
  intro rule f h
  simp [empty, find?] at h

theorem faithful_clear (c : Cache) : c.clear.Faithful :=
  faithful_empty c.capacity c.strict

theorem Faithful.keep
    {c : Cache} {rule : String} {f : Formula}
    (h : c.Faithful)
    (hf : Formula.ofText c.strict rule = .ok f) :
    (c.keep rule f).Faithful := by
  intro other g hg
  rw [strict_keep]
  unfold Cache.keep at hg
  split at hg
  · rw [find?, Keyed.find?_insert] at hg
    by_cases hother : other = rule
    · rw [if_pos hother, Option.some.injEq] at hg
      rw [hother, hf, hg]
    · rw [if_neg hother] at hg
      exact h other g hg
  · exact h other g hg

/-- Fetching keeps what its rule reads as, so a faithful cache stays faithful. -/
theorem Faithful.fetch
    {c : Cache}
    (h : c.Faithful)
    (rule : String) :
    (c.fetch rule).2.Faithful := by
  rcases fetch_cases c rule with ⟨f, -, hfetch⟩ | ⟨f, -, hread, hfetch⟩ | ⟨fault, -, -, hfetch⟩
  · rw [hfetch]
    exact h
  · rw [hfetch]
    exact h.keep hread
  · rw [hfetch]
    exact h

theorem Faithful.use
    {c : Cache}
    (h : c.Faithful)
    (u : Use) :
    (c.use u).Faithful := by
  cases u with
  | fetch rule => exact h.fetch rule
  | clear => exact c.faithful_clear

theorem Faithful.useAll
    {c : Cache}
    (h : c.Faithful)
    (uses : List Use) :
    (c.useAll uses).Faithful := by
  induction uses generalizing c with
  | nil => exact h
  | cons u uses ih => exact ih (h.use u)

/-- A faithful cache answers as reading does, whether or not it holds the rule. -/
theorem fetch_fst
    {c : Cache}
    (h : c.Faithful)
    (rule : String) :
    (c.fetch rule).1 = Formula.ofText c.strict rule := by
  rcases fetch_cases c rule with ⟨f, hfind, hfetch⟩ | ⟨f, -, hread, hfetch⟩ | ⟨_, -, hread, hfetch⟩
  · rw [hfetch, h rule f hfind]
  · rw [hfetch, hread]
  · rw [hfetch, hread]

/-! ## The number of formulas -/

/-- The rules read since the last clearing, given those before one more use. -/
def Use.extend (strict : Bool) (read : List String) : Use → List String
  | .fetch rule => if (Formula.ofText strict rule).isOk then read ++ [rule] else read
  | .clear => []

/-- The rules that were read since the cache was last cleared. -/
def readSince (strict : Bool) (uses : List Use) : List String :=
  uses.foldl (Use.extend strict) []

/-- The cache keeps some of the rules, and all of them unless it is full. -/
structure Remembers (c : Cache) (read : List String) : Prop where
  mem_read : ∀ rule ∈ c.kept.keys, rule ∈ read
  size_le : c.size ≤ c.capacity
  mem_keys : c.size < c.capacity → ∀ rule ∈ read, rule ∈ c.kept.keys

theorem remembers_empty (capacity : Nat) (strict : Bool) :
    (empty capacity strict).Remembers [] where
  mem_read := by simp [empty]
  size_le := Nat.zero_le _
  mem_keys := by simp

/-- A rule that is found has been read, so reading it again is nothing new. -/
theorem Remembers.again
    {c : Cache} {read : List String} {rule : String}
    (h : c.Remembers read)
    (hrule : rule ∈ c.kept.keys) :
    c.Remembers (read ++ [rule]) where
  mem_read other hother := List.mem_append_left _ (h.mem_read other hother)
  size_le := h.size_le
  mem_keys hsize other hother := by
    rcases List.mem_append.mp hother with hread | hnew
    · exact h.mem_keys hsize other hread
    · rw [List.mem_singleton.mp hnew]
      exact hrule

theorem Remembers.keep
    {c : Cache} {read : List String}
    (h : c.Remembers read)
    (rule : String) (f : Formula) :
    (c.keep rule f).Remembers (read ++ [rule]) := by
  unfold Cache.keep
  split
  · rename_i hroom
    refine ⟨?_, Nat.le_trans (Keyed.size_insert_le _ _ _) hroom, ?_⟩
    · intro other hother
      rcases Keyed.mem_keys_insert.mp hother with hkept | hnew
      · exact List.mem_append_left _ (h.mem_read other hkept)
      · exact List.mem_append_right _ (List.mem_singleton.mpr hnew)
    · intro _ other hother
      refine Keyed.mem_keys_insert.mpr ?_
      rcases List.mem_append.mp hother with hread | hnew
      · exact .inl (h.mem_keys hroom other hread)
      · exact .inr (List.mem_singleton.mp hnew)
  · rename_i hfull
    exact ⟨fun other hother => List.mem_append_left _ (h.mem_read other hother), h.size_le,
      fun hroom => absurd hroom hfull⟩

/-- A rule that one use has read is remembered after it; a clearing forgets all of them. -/
theorem Remembers.use
    {c : Cache} {read : List String}
    (h : c.Remembers read)
    (u : Use) :
    (c.use u).Remembers (u.extend c.strict read) := by
  cases u with
  | clear => exact remembers_empty c.capacity c.strict
  | fetch rule =>
      rcases fetch_cases c rule with
        ⟨f, hfind, hfetch⟩ | ⟨f, -, hread, hfetch⟩ | ⟨_, -, hread, hfetch⟩
      · have hkept : rule ∈ c.kept.keys := Keyed.mem_keys_of_find? hfind
        rw [Cache.use, hfetch, Use.extend]
        split
        · exact h.again hkept
        · exact h
      · rw [Cache.use, hfetch, Use.extend, hread]
        exact h.keep rule f
      · rw [Cache.use, hfetch, Use.extend, hread]
        exact h

theorem Remembers.useAll
    {c : Cache} {read : List String}
    (h : c.Remembers read)
    (uses : List Use) :
    (c.useAll uses).Remembers (uses.foldl (Use.extend c.strict) read) := by
  induction uses generalizing c read with
  | nil => exact h
  | cons u uses ih =>
      have hrest := ih (h.use u)
      rw [strict_use] at hrest
      exact hrest

theorem Remembers.size_eq
    {c : Cache} {read : List String}
    (h : c.Remembers read) :
    c.size = min c.capacity read.toFinset.card := by
  have hcard : c.kept.keys.toFinset.card = c.size := by
    rw [List.toFinset_card_of_nodup c.kept.nodup_keys]
    exact Keyed.length_keys c.kept
  have hsub : c.kept.keys.toFinset ⊆ read.toFinset := fun rule hrule =>
    List.mem_toFinset.mpr (h.mem_read rule (List.mem_toFinset.mp hrule))
  have hle := Finset.card_le_card hsub
  by_cases hroom : c.size < c.capacity
  · have hsup : read.toFinset ⊆ c.kept.keys.toFinset := fun rule hrule =>
      List.mem_toFinset.mpr (h.mem_keys hroom rule (List.mem_toFinset.mp hrule))
    have hge := Finset.card_le_card hsup
    omega
  · have hsize := h.size_le
    omega

/-- After any uses a cache keeps as many formulas as different rules were read since it was last
cleared, or as many as there is room for. -/
theorem size_useAll
    (capacity : Nat) (strict : Bool) (uses : List Use) :
    ((empty capacity strict).useAll uses).size =
      min capacity (readSince strict uses).toFinset.card := by
  have h := ((remembers_empty capacity strict).useAll uses).size_eq
  rw [capacity_useAll] at h
  exact h

end Cache
end Eligibility
