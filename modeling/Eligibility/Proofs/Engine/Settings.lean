import Eligibility.Engine.Settings
import Eligibility.Proofs.Json.Written

/-!
# Loading settings

Settings are loaded from an object exactly where its keys and values pass the checks that are made of
them one by one: every key is known, the strategy has a name that is known, and the capacity fits into
64 bits.  Then each setting has the value that is given for it, and its default if none is given.

**Invariant.**  While the members of an object are read, what has been given is what the members read so
far spell.

**Results.**
* `give?_eq_some_iff`: a member gives the setting that it spells, unless its key has been given before;
* `has_of_readMembers?`: the invariant;
* `readStrategy?_text`: strategies are stored under the names that are checked;
* `isSome_readMembers?_iff`: members under distinct keys are read if each of them spells a setting;
* `ofJson_toJson`: stored settings are loaded again;
* `ofJson_iff_checked`: all of this for the texts that settings are loaded from.
-/

namespace Eligibility
namespace Settings

open Json

/-! ## One setting -/

/-- A setting with its value. -/
inductive Setting
  | strict (value : Bool)
  | strategy (value : Strategy)
  | capacity (value : Nat)

/-- The key that a setting stands under. -/
def Setting.key : Setting → String
  | .strict _ => "strict_tokens"
  | .strategy _ => "strategy"
  | .capacity _ => "cache_capacity"

/-- A document spells the value of a setting. -/
def Setting.SpelledBy (d : Document) : Setting → Prop
  | .strict b => d = .bool b
  | .strategy s => readStrategy? d = some s
  | .capacity v => ∃ n, d = .number n ∧ n.natural? = some v

/-- A member of an object spells a setting. -/
structure Spells (key : String) (d : Document) (x : Setting) : Prop where
  key_eq : x.key = key
  spelledBy : x.SpelledBy d

namespace Given

/-- The setting has been given with this value. -/
def Has (g : Given) : Setting → Prop
  | .strict b => g.strict = some b
  | .strategy s => g.strategy = some s
  | .capacity v => g.capacity = some v

/-- The setting has not been given, with whatever value. -/
def Lacks (g : Given) : Setting → Prop
  | .strict _ => g.strict = none
  | .strategy _ => g.strategy = none
  | .capacity _ => g.capacity = none

/-- What has been given together with one more setting. -/
def put (g : Given) : Setting → Given
  | .strict b => { g with strict := some b }
  | .strategy s => { g with strategy := some s }
  | .capacity v => { g with capacity := some v }

variable {g : Given} {x y : Setting}

theorem lacks_iff : g.Lacks x ↔ ∀ y, y.key = x.key → ¬ g.Has y := by
  constructor
  · intro h y hkey
    cases x <;> cases y <;> simp_all [Lacks, Has, Setting.key]
  · intro h
    cases x with
    | strict b => exact Option.eq_none_iff_forall_ne_some.mpr fun v => h (.strict v) rfl
    | strategy s => exact Option.eq_none_iff_forall_ne_some.mpr fun v => h (.strategy v) rfl
    | capacity n => exact Option.eq_none_iff_forall_ne_some.mpr fun v => h (.capacity v) rfl

theorem has_put_iff
    (h : g.Lacks x) :
    (g.put x).Has y ↔ g.Has y ∨ y = x := by
  cases x <;> cases y <;> simp_all [Lacks, Has, put, eq_comm]

theorem not_has_empty : ¬ ({} : Given).Has x := by
  cases x <;> simp [Has]

end Given

/-! ## One member -/

variable {g g' : Given} {key : String} {d : Document} {x y : Setting}

theorem Setting.key_mem (x : Setting) : x.key ∈ keys := by
  cases x <;> simp [Setting.key, keys]

theorem Spells.unique
    (hx : Spells key d x)
    (hy : Spells key d y) :
    x = y := by
  have hkey : x.key = y.key := hx.key_eq.trans hy.key_eq.symm
  have hxd := hx.spelledBy
  have hyd := hy.spelledBy
  cases x <;> cases y <;> simp_all [Setting.key, Setting.SpelledBy]
  -- two capacities, which are spelled by one numeral
  obtain ⟨n, rfl, hn⟩ := hxd
  obtain ⟨_, ⟨⟩, hn'⟩ := hyd
  exact Option.some.inj (hn.symm.trans hn')

/-- A member gives the setting that it spells, unless its key has been given before. -/
theorem give?_eq_some_iff :
    give? g key d = some g' ↔ ∃ x, Spells key d x ∧ g.Lacks x ∧ g' = g.put x := by
  constructor
  · intro h
    unfold give? at h
    split at h
    · rename_i hkey
      split at h
      · rename_i b hlacks
        exact ⟨.strict b, ⟨hkey.symm, rfl⟩, hlacks, (Option.some.inj h).symm⟩
      · simp at h
    · split at h
      · rename_i hkey
        split at h
        · rename_i s hlacks hd
          exact ⟨.strategy s, ⟨hkey.symm, hd⟩, hlacks, (Option.some.inj h).symm⟩
        · simp at h
      · split at h
        · rename_i hkey
          split at h
          · rename_i n hlacks
            obtain ⟨v, hn, rfl⟩ := Option.map_eq_some_iff.mp h
            exact ⟨.capacity v, ⟨hkey.symm, n, rfl, hn⟩, hlacks, rfl⟩
          · simp at h
        · simp at h
  · rintro ⟨x, ⟨rfl, hspelled⟩, hlacks, rfl⟩
    cases x with
    | strict b =>
        obtain rfl : d = .bool b := hspelled
        have hlacks : g.strict = none := hlacks
        simp [give?, Setting.key, hlacks, Given.put]
    | strategy s =>
        have hd : readStrategy? d = some s := hspelled
        have hlacks : g.strategy = none := hlacks
        simp [give?, Setting.key, hlacks, hd, Given.put]
    | capacity v =>
        obtain ⟨n, rfl, hn⟩ := hspelled
        have hlacks : g.capacity = none := hlacks
        simp [give?, Setting.key, hlacks, hn, Given.put]

/-! ## All members -/

/-- Members as an object has them. -/
def named (members : List (String × Document)) : List (Option String × Document) :=
  members.map fun m => (some m.1, m.2)

variable {members : List (String × Document)}

theorem readMembers?_cons (m : String × Document) :
    readMembers? g (named (m :: members)) =
      (give? g m.1 m.2).bind fun g => readMembers? g (named members) := by
  rw [named, List.map_cons, readMembers?]
  cases give? g m.1 m.2 <;> rfl

/-- What has been given after some members was given before, or one of them spells it. -/
theorem has_of_readMembers?
    (h : readMembers? g (named members) = some g') :
    g'.Has y ↔ g.Has y ∨ ∃ m ∈ members, Spells m.1 m.2 y := by
  induction members generalizing g with
  | nil =>
      obtain rfl : g = g' := Option.some.inj h
      simp
  | cons m members ih =>
      rw [readMembers?_cons] at h
      obtain ⟨next, hnext, h⟩ := Option.bind_eq_some_iff.mp h
      obtain ⟨x, hspells, hlacks, rfl⟩ := give?_eq_some_iff.mp hnext
      have hfirst : y = x ↔ Spells m.1 m.2 y :=
        ⟨fun hy => hy ▸ hspells, fun hy => hy.unique hspells⟩
      rw [ih h, Given.has_put_iff hlacks, hfirst, or_assoc]
      simp only [List.mem_cons, exists_eq_or_imp]

theorem spells_of_readMembers?
    (h : readMembers? g (named members) = some g') :
    ∀ m ∈ members, ∃ x, Spells m.1 m.2 x := by
  induction members generalizing g with
  | nil => simp
  | cons m members ih =>
      rw [readMembers?_cons] at h
      obtain ⟨next, hnext, h⟩ := Option.bind_eq_some_iff.mp h
      obtain ⟨x, hspells, -⟩ := give?_eq_some_iff.mp hnext
      exact List.forall_mem_cons.mpr ⟨⟨x, hspells⟩, ih h⟩

theorem exists_readMembers?
    (hdistinct : (members.map Prod.fst).Nodup)
    (hspells : ∀ m ∈ members, ∃ x, Spells m.1 m.2 x)
    (hnew : ∀ y, y.key ∈ members.map Prod.fst → ¬ g.Has y) :
    ∃ g', readMembers? g (named members) = some g' := by
  induction members generalizing g with
  | nil => exact ⟨g, rfl⟩
  | cons m members ih =>
      obtain ⟨hkey, hdistinct⟩ := List.nodup_cons.mp hdistinct
      obtain ⟨⟨x, hx⟩, hspells⟩ := List.forall_mem_cons.mp hspells
      have hlacks : g.Lacks x := by
        refine Given.lacks_iff.mpr fun y hy => hnew y ?_
        rw [hy, hx.key_eq]
        exact List.mem_cons_self
      have hlater : ∀ y, y.key ∈ members.map Prod.fst → ¬ (g.put x).Has y := by
        intro y hy
        rw [Given.has_put_iff hlacks, not_or]
        refine ⟨hnew y (List.mem_cons_of_mem _ hy), ?_⟩
        rintro rfl
        exact hkey (hx.key_eq ▸ hy)
      obtain ⟨g', hg'⟩ := ih hdistinct hspells hlater
      refine ⟨g', ?_⟩
      rw [readMembers?_cons, give?_eq_some_iff.mpr ⟨x, hx, hlacks, rfl⟩]
      exact hg'

/-- Members under distinct keys are read if and only if each of them spells a setting. -/
theorem isSome_readMembers?_iff
    (hdistinct : (members.map Prod.fst).Nodup) :
    (∃ g, readMembers? {} (named members) = some g) ↔ ∀ m ∈ members, ∃ x, Spells m.1 m.2 x :=
  ⟨fun ⟨_, h⟩ => spells_of_readMembers? h,
    fun h => exists_readMembers? hdistinct h fun _ _ => Given.not_has_empty⟩

/-- What has been given in the end is what the members spell. -/
theorem has_iff_spells
    (h : readMembers? {} (named members) = some g) :
    g.Has x ↔ ∃ m ∈ members, Spells m.1 m.2 x := by
  rw [has_of_readMembers? h, or_iff_right Given.not_has_empty]

theorem has_of_mem
    (h : readMembers? {} (named members) = some g)
    (x : Setting)
    (hm : (x.key, d) ∈ members)
    (hd : x.SpelledBy d) :
    g.Has x :=
  (has_iff_spells h).mpr ⟨_, hm, rfl, hd⟩

theorem lacks_of_notMem
    (h : readMembers? {} (named members) = some g)
    (x : Setting)
    (hkey : x.key ∉ members.map Prod.fst) :
    g.Lacks x := by
  refine Given.lacks_iff.mpr fun y hy hhas => hkey ?_
  obtain ⟨m, hm, hspells⟩ := (has_iff_spells h).mp hhas
  rw [← hy, hspells.key_eq]
  exact List.mem_map_of_mem hm

/-! ## Names of settings and what they spell -/

theorem checkKeys_eq_ok_iff
    {names : List String} :
    checkKeys names = .ok () ↔ ∀ name ∈ names, name ∈ keys := by
  induction names with
  | nil => simp [checkKeys]
  | cons name names ih =>
      rw [checkKeys, List.forall_mem_cons]
      split
      · rename_i hname
        rw [ih, and_iff_right hname]
      · rename_i hname
        exact iff_of_false (by simp) fun h => hname h.1

theorem natural?_ofInt
    {n v : Nat} :
    (Numeral.ofInt n).natural? = some v ↔ n < 2 ^ 64 ∧ n = v := by
  have hnegative : ¬ (n : Int) < 0 := by omega
  simp [Numeral.natural?, Numeral.ofInt, hnegative, UInt64.size]

theorem ofName_eq_ok_iff
    {name : String} {s : Strategy} :
    Strategy.ofName name = .ok s ↔ s.name = name := by
  constructor
  · intro h
    unfold Strategy.ofName at h
    split at h
    · rename_i hname
      obtain rfl := Except.ok.inj h
      exact hname.symm
    · split at h
      · rename_i hname
        obtain rfl := Except.ok.inj h
        exact hname.symm
      · simp at h
  · rintro rfl
    cases s <;> rfl

theorem readStrategy?_eq_some_iff
    {name : String} {s : Strategy} :
    readStrategy? (.text (some name)) = some s ↔ s.name = name := by
  rw [readStrategy?]
  simp only [Document.name?, Option.bind_some]
  constructor
  · intro h
    have hname := List.find?_some h
    exact of_decide_eq_true hname
  · rintro rfl
    cases s <;> rfl

/-- The names that strategies are stored under and the names that settings are checked against are the
same. -/
theorem readStrategy?_text
    {name : String} {s : Strategy} :
    readStrategy? (.text (some name)) = some s ↔ Strategy.ofName name = .ok s := by
  rw [readStrategy?_eq_some_iff, ofName_eq_ok_iff]

/-- The members of an object of settings, each of the kind that its key asks for.  Those under unknown
keys may be of any kind. -/
structure Typed (members : List (String × Document)) : Prop where
  distinct : (members.map Prod.fst).Nodup
  complete : ∀ m ∈ members, m.2.Complete
  strict : ∀ d, ("strict_tokens", d) ∈ members → ∃ b, d = .bool b
  strategy : ∀ d, ("strategy", d) ∈ members → ∃ name, d = .text (some name)
  capacity : ∀ d, ("cache_capacity", d) ∈ members → ∃ n : Nat, d = .number (Numeral.ofInt n)

/-- Members of the right kinds all spell settings if their keys are known, the strategy is known and
the capacity is in range. -/
theorem Typed.spells_iff
    (h : Typed members) :
    (∀ m ∈ members, ∃ x, Spells m.1 m.2 x) ↔
      checkKeys (members.map Prod.fst) = .ok () ∧
        (∀ name, ("strategy", .text (some name)) ∈ members →
          ∃ s, Strategy.ofName name = .ok s) ∧
        ∀ n : Nat, ("cache_capacity", .number (Numeral.ofInt n)) ∈ members → n < 2 ^ 64 := by
  rw [checkKeys_eq_ok_iff]
  constructor
  · intro hspells
    refine ⟨?_, ?_, ?_⟩
    · intro name hname
      obtain ⟨m, hm, rfl⟩ := List.mem_map.mp hname
      obtain ⟨x, hx⟩ := hspells m hm
      exact hx.key_eq ▸ x.key_mem
    · intro name hm
      obtain ⟨x, hkey, hspelled⟩ := hspells _ hm
      cases x with
      | strategy s => exact ⟨s, readStrategy?_text.mp hspelled⟩
      | _ => simp [Setting.key] at hkey
    · intro n hm
      obtain ⟨x, hkey, hspelled⟩ := hspells _ hm
      cases x with
      | capacity v =>
          obtain ⟨_, ⟨⟩, hn⟩ := hspelled
          exact (natural?_ofInt.mp hn).1
      | _ => simp [Setting.key] at hkey
  · rintro ⟨hkeys, hstrategy, hcapacity⟩ ⟨key, d⟩ hm
    have hkey : key ∈ keys := hkeys key (List.mem_map_of_mem hm)
    simp only [keys, List.mem_cons, List.not_mem_nil, or_false] at hkey
    rcases hkey with rfl | rfl | rfl
    · obtain ⟨b, rfl⟩ := h.strict d hm
      exact ⟨.strict b, rfl, rfl⟩
    · obtain ⟨name, rfl⟩ := h.strategy d hm
      obtain ⟨s, hs⟩ := hstrategy name hm
      exact ⟨.strategy s, rfl, readStrategy?_text.mpr hs⟩
    · obtain ⟨n, rfl⟩ := h.capacity d hm
      exact ⟨.capacity n, rfl, _, rfl, natural?_ofInt.mpr ⟨hcapacity n hm, rfl⟩⟩

/-! ## Texts -/

theorem ofText_of_typed
    (h : Typed members)
    {s : String} (hlaid : Lexeme.Laid (Document.object (named members) true).lexemes s.toList) :
    Document.ofText s = (.object (named members) true, []) := by
  refine Document.ofText_of_laid ⟨rfl, Document.membersComplete_iff.mpr ?_⟩ hlaid
  intro _ hm
  obtain ⟨m, hmember, rfl⟩ := List.mem_map.mp hm
  exact h.complete m hmember

theorem ofJson_eq_ok_iff
    (h : Typed members)
    {s : String} (hlaid : Lexeme.Laid (Document.object (named members) true).lexemes s.toList)
    {c : Settings} :
    ofJson s = .ok c ↔ ∃ g, readMembers? {} (named members) = some g ∧ c = ofGiven g := by
  rw [ofJson, ofText_of_typed h hlaid]
  simp only [read?]
  cases readMembers? {} (named members) with
  | none => simp
  | some g => simp [eq_comm]

/-- Settings whose capacity fits into 64 bits are loaded again from what they are stored as. -/
theorem ofJson_toJson
    {c : Settings}
    (h : c.capacity < 2 ^ 64) :
    ofJson c.toJson = .ok c := by
  have hstrategy : readStrategy? (.text (some c.strategy.name)) = some c.strategy :=
    readStrategy?_eq_some_iff.mpr rfl
  have hcapacity : (Numeral.ofInt c.capacity).natural? = some c.capacity :=
    natural?_ofInt.mpr ⟨h, rfl⟩
  have hread : read? c.toValue.toDocument = some c := by
    simp [toValue, Value.toDocument, Value.membersToDocuments, read?, readMembers?, give?, hstrategy,
      hcapacity, ofGiven]
  rw [ofJson, toJson, Value.ofText_write]
  simp only [hread]

/-- The values that are given, and the defaults of those that are not. -/
theorem ofGiven_values
    (h : Typed members)
    (hread : readMembers? {} (named members) = some g) :
    (∀ b, ("strict_tokens", .bool b) ∈ members → (ofGiven g).strict = b) ∧
      (∀ name, ("strategy", .text (some name)) ∈ members →
        Strategy.ofName name = .ok (ofGiven g).strategy) ∧
      (∀ n : Nat, ("cache_capacity", .number (Numeral.ofInt n)) ∈ members →
        (ofGiven g).capacity = n) ∧
      ("strict_tokens" ∉ members.map Prod.fst → (ofGiven g).strict = false) ∧
      ("strategy" ∉ members.map Prod.fst → (ofGiven g).strategy = .eager) ∧
      ("cache_capacity" ∉ members.map Prod.fst → (ofGiven g).capacity = 1024) := by
  have hspells := spells_of_readMembers? hread
  refine ⟨fun b hm => ?_, fun name hm => ?_, fun n hm => ?_, fun hkey => ?_, fun hkey => ?_,
    fun hkey => ?_⟩
  · have hb : g.strict = some b := has_of_mem hread (.strict b) hm rfl
    rw [ofGiven, hb, Option.getD_some]
  · obtain ⟨-, hstrategy, -⟩ := h.spells_iff.mp hspells
    obtain ⟨s, hs⟩ := hstrategy name hm
    have hg : g.strategy = some s := has_of_mem hread (.strategy s) hm (readStrategy?_text.mpr hs)
    rw [ofGiven, hg, Option.getD_some, hs]
  · obtain ⟨-, -, hcapacity⟩ := h.spells_iff.mp hspells
    have hg : g.capacity = some n :=
      has_of_mem hread (.capacity n) hm ⟨_, rfl, natural?_ofInt.mpr ⟨hcapacity n hm, rfl⟩⟩
    rw [ofGiven, hg, Option.getD_some]
  · have hg : g.strict = none := lacks_of_notMem hread (.strict false) hkey
    rw [ofGiven, hg, Option.getD_none]
  · have hg : g.strategy = none := lacks_of_notMem hread (.strategy .eager) hkey
    rw [ofGiven, hg, Option.getD_none]
  · have hg : g.capacity = none := lacks_of_notMem hread (.capacity 0) hkey
    rw [ofGiven, hg, Option.getD_none]

/-- **Loaded as checked.**  Settings are loaded from an object with members of the right kinds if and
only if its keys pass the check of keys, the strategy has a known name and the capacity fits into 64
bits.  Each setting then has the value that is given for it, or its default.  Settings that have been stored
are loaded again. -/
theorem ofJson_iff_checked :
    (∀ members s, Typed members → Lexeme.Laid (Document.object (named members) true).lexemes s.toList →
      ((∃ c, ofJson s = .ok c) ↔
        checkKeys (members.map Prod.fst) = .ok () ∧
          (∀ name, ("strategy", .text (some name)) ∈ members →
            ∃ st, Strategy.ofName name = .ok st) ∧
          ∀ n : Nat, ("cache_capacity", .number (Numeral.ofInt n)) ∈ members → n < 2 ^ 64) ∧
      ∀ c, ofJson s = .ok c →
        (∀ b, ("strict_tokens", .bool b) ∈ members → c.strict = b) ∧
          (∀ name, ("strategy", .text (some name)) ∈ members →
            Strategy.ofName name = .ok c.strategy) ∧
          (∀ n : Nat, ("cache_capacity", .number (Numeral.ofInt n)) ∈ members → c.capacity = n) ∧
          ("strict_tokens" ∉ members.map Prod.fst → c.strict = false) ∧
          ("strategy" ∉ members.map Prod.fst → c.strategy = .eager) ∧
          ("cache_capacity" ∉ members.map Prod.fst → c.capacity = 1024)) ∧
      ∀ c : Settings, c.capacity < 2 ^ 64 → ofJson c.toJson = .ok c := by
  refine ⟨fun members s h hlaid => ⟨?_, ?_⟩, fun c => ofJson_toJson⟩
  · rw [← h.spells_iff, ← isSome_readMembers?_iff h.distinct]
    simp only [ofJson_eq_ok_iff h hlaid]
    exact ⟨fun ⟨_, g, hg, _⟩ => ⟨g, hg⟩, fun ⟨g, hg⟩ => ⟨_, g, hg, rfl⟩⟩
  · intro c hc
    obtain ⟨g, hread, rfl⟩ := (ofJson_eq_ok_iff h hlaid).mp hc
    exact ofGiven_values h hread

/-- The greatest capacity, before a strategy under an escaped key; a capacity that is too great; and
settings that are stored and loaded again. -/
theorem ofJson_iff_checked_capacities :
    ofJson "\x7b\"cache_capacity\":18446744073709551615 ,\n\"strat\\u0065gy\":\"short_circuit\"\x7d" =
        .ok ⟨false, .shortCircuit, 18446744073709551615⟩ ∧
      (¬ ∃ c, ofJson "\x7b\"cache_capacity\":18446744073709551616\x7d" = .ok c) ∧
      ofJson (toJson ⟨true, .shortCircuit, 0⟩) = .ok ⟨true, .shortCircuit, 0⟩ := by
  obtain ⟨hload, hstored⟩ := ofJson_iff_checked
  refine ⟨?_, ?_, hstored ⟨true, .shortCircuit, 0⟩ (by decide)⟩
  · have htyped : Typed [("cache_capacity", .number (Numeral.ofInt 18446744073709551615)),
        ("strategy", .text (some "short_circuit"))] :=
      ⟨by decide, by simp [Document.Complete], by simp, by simp, by simpa using ⟨_, rfl⟩⟩
    obtain ⟨hloads, hvalues⟩ := hload _
      "\x7b\"cache_capacity\":18446744073709551615 ,\n\"strat\\u0065gy\":\"short_circuit\"\x7d"
      htyped (Lexeme.laid_of_ofText (by decide +kernel) (by decide +kernel))
    obtain ⟨c, hc⟩ := hloads.mpr ⟨rfl, by simp [Strategy.ofName], by simp [Numeral.ofInt]⟩
    obtain ⟨-, hstrategy, hcapacity, hstrict, -, -⟩ := hvalues c hc
    obtain ⟨strict, strategy, capacity⟩ := c
    obtain rfl : strict = false := hstrict (by decide)
    obtain rfl : capacity = 18446744073709551615 :=
      hcapacity 18446744073709551615 List.mem_cons_self
    obtain rfl : .shortCircuit = strategy :=
      Except.ok.inj (hstrategy "short_circuit" (List.mem_cons_of_mem _ List.mem_cons_self))
    exact hc
  · have htyped : Typed [("cache_capacity", .number (Numeral.ofInt 18446744073709551616))] :=
      ⟨by decide, by simp [Document.Complete], by simp, by simp, by simpa using ⟨_, rfl⟩⟩
    obtain ⟨hloads, -⟩ := hload _ "\x7b\"cache_capacity\":18446744073709551616\x7d" htyped
      (Lexeme.laid_of_ofText (by decide +kernel) (by decide +kernel))
    rw [hloads]
    rintro ⟨-, -, hcapacity⟩
    exact absurd (hcapacity 18446744073709551616 List.mem_cons_self) (by decide)

end Settings
end Eligibility
