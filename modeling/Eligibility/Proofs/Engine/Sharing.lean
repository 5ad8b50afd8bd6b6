import Eligibility.Engine.Sharing
import Eligibility.Proofs.Engine.Cache
import Mathlib.Data.List.Basic

/-!
# Calls that take turns

However the steps of calls follow each other, the cache keeps nothing but what its rules read as, and
no more than there is room for, and a call returns what its rule reads as.  The invariant covers the
calls under way: a formula that a call still holds is what its rule reads as, whatever has happened
to the cache since the look-up.

**Invariants.**  `Sound` holds after every history.  `Tallied` relates the rules that are kept to
the calls that have returned a formula; a clearing ends it.

**Results.**
* `turns_turn`: the six things that a turn can do;
* `Sound.step`, `Sound.run`, `Tallied.step`, `Tallied.run`: what one event and a history preserve;
* `run_call_alone`: a call that is not interrupted fetches its rule;
* `shared_cache_safe`: the cache and the calls after any history.
-/

namespace Eligibility

namespace Cache

/-- The cache and the stage after a turn of a call. -/
inductive Turns (c : Cache) (rule : String) : Stage → Cache → Stage → Prop
  | found {f : Formula} (h : c.find? rule = some f) : Turns c rule .begun c (.returned (.ok f))
  | missed (h : c.find? rule = none) : Turns c rule .begun c .missed
  | read {f : Formula} (h : Formula.ofText c.strict rule = .ok f) : Turns c rule .missed c (.read f)
  | refused {fault : Fault} (h : Formula.ofText c.strict rule = .error fault) :
      Turns c rule .missed c (.returned (.error fault))
  | kept (f : Formula) : Turns c rule (.read f) (c.keep rule f) (.returned (.ok f))
  | ended (answer : Except Fault Formula) : Turns c rule (.returned answer) c (.returned answer)

/-- A turn does one of six things. -/
theorem turns_turn
    (c : Cache) (rule : String) (stage : Stage) :
    Turns c rule stage (c.turn rule stage).1 (c.turn rule stage).2 := by
  cases stage with
  | begun =>
      rw [turn]
      split
      · rename_i h
        exact .found h
      · rename_i h
        exact .missed h
  | missed =>
      rw [turn]
      split
      · rename_i h
        exact .read h
      · rename_i h
        exact .refused h
  | read f => exact .kept f
  | returned answer => exact .ended answer

end Cache

namespace Shared

/-- The cache and the calls after an event. -/
inductive Steps : Shared → Event → Shared → Prop
  | call (c : Cache) (calls : List Call) (rule : String) :
      Steps ⟨c, calls⟩ (.call rule) ⟨c, calls ++ [⟨rule, .begun⟩]⟩
  | turn {c c' : Cache} {before after : List Call} {rule : String} {stage stage' : Stage}
      (h : c.Turns rule stage c' stage') :
      Steps ⟨c, before ++ ⟨rule, stage⟩ :: after⟩ (.turn before.length)
        ⟨c', before ++ ⟨rule, stage'⟩ :: after⟩
  | idle {s : Shared} {number : Nat} (h : s.calls.length ≤ number) : Steps s (.turn number) s
  | clear (c : Cache) (calls : List Call) : Steps ⟨c, calls⟩ .clear ⟨c.clear, calls⟩

theorem steps_step
    (s : Shared) (e : Event) :
    Steps s e (s.step e) := by
  obtain ⟨c, calls⟩ := s
  cases e with
  | call rule => exact .call c calls rule
  | clear => exact .clear c calls
  | turn number =>
      rw [step]
      cases hcall : calls[number]? with
      | none => exact .idle (List.getElem?_eq_none_iff.mp hcall)
      | some call =>
          obtain ⟨hlt, rfl⟩ := List.getElem?_eq_some_iff.mp hcall
          have hsplit : calls.take number ++ calls[number] :: calls.drop (number + 1) = calls := by
            simp
          have hlength : (calls.take number).length = number := by
            simp
            omega
          simp only
          rw [List.set_eq_take_append_cons_drop, if_pos hlt]
          have hturn : Steps ⟨c, calls.take number ++ calls[number] :: calls.drop (number + 1)⟩
              (.turn (calls.take number).length) _ := .turn (c.turns_turn _ _)
          rwa [hsplit, hlength] at hturn

end Shared

/-! ## What is kept and what is returned -/

/-- What a call holds or has returned is what its rule reads as. -/
def Call.Correct (strict : Bool) (call : Call) : Prop :=
  match call.stage with
  | .read f => Formula.ofText strict call.rule = .ok f
  | .returned answer => answer = Formula.ofText strict call.rule
  | _ => True

namespace Cache

variable {c c' : Cache} {rule : String} {stage stage' : Stage}

theorem size_keep_le
    (h : c.size ≤ c.capacity)
    (rule : String) (f : Formula) :
    (c.keep rule f).size ≤ c.capacity := by
  unfold keep
  split
  · rename_i hroom
    exact Nat.le_trans (Keyed.size_insert_le _ _ _) hroom
  · exact h

theorem Turns.settings
    (h : c.Turns rule stage c' stage') :
    c'.strict = c.strict ∧ c'.capacity = c.capacity := by
  cases h with
  | kept f => exact ⟨strict_keep c rule f, capacity_keep c rule f⟩
  | _ => exact ⟨rfl, rfl⟩

theorem Turns.size_le
    (h : c.Turns rule stage c' stage')
    (hsize : c.size ≤ c.capacity) :
    c'.size ≤ c.capacity := by
  cases h with
  | kept f => exact size_keep_le hsize rule f
  | _ => exact hsize

/-- A turn neither keeps nor returns anything but what the rule reads as. -/
theorem Turns.correct
    (h : c.Turns rule stage c' stage')
    (hc : c.Faithful)
    (hcall : (Call.mk rule stage).Correct c.strict) :
    c'.Faithful ∧ (Call.mk rule stage').Correct c.strict := by
  cases h with
  | found h => exact ⟨hc, (hc _ _ h).symm⟩
  | missed h => exact ⟨hc, trivial⟩
  | read h => exact ⟨hc, h⟩
  | refused h => exact ⟨hc, h.symm⟩
  | kept f =>
      have hread : Formula.ofText c.strict rule = .ok f := hcall
      exact ⟨hc.keep hread, hread.symm⟩
  | ended answer => exact ⟨hc, hcall⟩

end Cache

namespace Shared

/-- The cache is within its capacity, and what it keeps and what calls hold or have returned is what
the rules read as. -/
structure Sound (s : Shared) : Prop where
  faithful : s.cache.Faithful
  size_le : s.cache.size ≤ s.cache.capacity
  correct : ∀ call ∈ s.calls, call.Correct s.cache.strict

variable {s s' : Shared} {e : Event}

theorem sound_start (capacity : Nat) (strict : Bool) : (start capacity strict).Sound where
  faithful := Cache.faithful_empty capacity strict
  size_le := Nat.zero_le _
  correct := by simp [start]

theorem Steps.settings
    (h : Steps s e s') :
    s'.cache.strict = s.cache.strict ∧ s'.cache.capacity = s.cache.capacity := by
  cases h with
  | turn h => exact h.settings
  | _ => exact ⟨rfl, rfl⟩

/-- One event keeps a shared cache sound, whoever takes the turn. -/
theorem Sound.step
    (h : s.Sound)
    (hstep : Steps s e s') :
    s'.Sound := by
  obtain ⟨hfaithful, hsize, hcorrect⟩ := h
  cases hstep with
  | call c calls rule =>
      refine ⟨hfaithful, hsize, ?_⟩
      intro call hcall
      rcases List.mem_append.mp hcall with hcall | hcall
      · exact hcorrect call hcall
      · rw [List.mem_singleton.mp hcall]
        trivial
  | @turn c c' before after rule stage stage' hturn =>
      obtain ⟨hfaithful', hcall'⟩ := hturn.correct hfaithful (hcorrect _ (by simp))
      obtain ⟨hstrict, hcapacity⟩ := hturn.settings
      refine ⟨hfaithful', hcapacity ▸ hturn.size_le hsize, ?_⟩
      intro call hcall
      change call.Correct c'.strict
      rw [hstrict]
      rcases List.mem_append.mp hcall with hcall | hcall
      · exact hcorrect call (List.mem_append_left _ hcall)
      · rcases List.mem_cons.mp hcall with rfl | hcall
        · exact hcall'
        · exact hcorrect call (List.mem_append_right _ (List.mem_cons_of_mem _ hcall))
  | idle hlength => exact ⟨hfaithful, hsize, hcorrect⟩
  | clear c calls => exact ⟨c.faithful_clear, Nat.zero_le _, hcorrect⟩

/-- A history keeps a shared cache sound, with its mode and its capacity. -/
theorem Sound.run
    (h : s.Sound)
    (history : List Event) :
    (s.run history).Sound ∧ (s.run history).cache.strict = s.cache.strict ∧
      (s.run history).cache.capacity = s.cache.capacity := by
  induction history generalizing s with
  | nil => exact ⟨h, rfl, rfl⟩
  | cons e history ih =>
      obtain ⟨hstrict, hcapacity⟩ := (steps_step s e).settings
      obtain ⟨hsound, hstrict', hcapacity'⟩ := ih (h.step (steps_step s e))
      exact ⟨hsound, hstrict'.trans hstrict, hcapacity'.trans hcapacity⟩

end Shared

/-! ## How many formulas are kept -/

/-- The rule of a call that has returned a formula. -/
def Call.served (call : Call) : List String :=
  match call.stage with
  | .returned (.ok _) => [call.rule]
  | _ => []

namespace Cache

variable {c c' : Cache} {rule : String} {stage stage' : Stage}

/-- A turn that returns a formula leaves its rule in the cache, unless the cache is full. -/
theorem Turns.remembers
    (h : c.Turns rule stage c' stage') :
    ∃ new, (Call.mk rule stage').served = (Call.mk rule stage).served ++ new ∧
      ∀ read, c.Remembers read → c'.Remembers (read ++ new) := by
  have hnothing (read : List String) (h : c.Remembers read) : c.Remembers (read ++ []) := by
    rwa [List.append_nil]
  cases h with
  | found h => exact ⟨[rule], rfl, fun read hread => hread.again (Keyed.mem_keys_of_find? h)⟩
  | missed h => exact ⟨[], rfl, hnothing⟩
  | read h => exact ⟨[], rfl, hnothing⟩
  | refused h => exact ⟨[], rfl, hnothing⟩
  | kept f => exact ⟨[rule], rfl, fun read hread => hread.keep rule f⟩
  | ended answer => exact ⟨[], (List.append_nil _).symm, hnothing⟩

theorem Remembers.perm
    {read read' : List String}
    (h : c.Remembers read)
    (hperm : read.Perm read') :
    c.Remembers read' where
  mem_read rule hrule := hperm.mem_iff.mp (h.mem_read rule hrule)
  size_le := h.size_le
  mem_keys hroom rule hrule := h.mem_keys hroom rule (hperm.mem_iff.mpr hrule)

end Cache

namespace Shared

variable {s s' : Shared} {e : Event}

/-- The cache remembers the rules of the calls that have returned a formula. -/
def Tallied (s : Shared) : Prop :=
  s.cache.Remembers (s.calls.flatMap Call.served)

theorem tallied_start (capacity : Nat) (strict : Bool) : (start capacity strict).Tallied :=
  Cache.remembers_empty capacity strict

/-- One event other than a clear adds to the cache the rules of the calls that it serves. -/
theorem Tallied.step
    (h : s.Tallied)
    (hstep : Steps s e s')
    (he : e ≠ .clear) :
    s'.Tallied := by
  cases hstep with
  | call c calls rule => simpa [Tallied, Call.served] using h
  | @turn c c' before after rule stage stage' hturn =>
      obtain ⟨new, hserved, hremembers⟩ := hturn.remembers
      refine (hremembers _ h).perm ?_
      simp only [List.flatMap_append, List.flatMap_cons, hserved, List.append_assoc]
      exact (List.perm_append_comm.append_left _).append_left _
  | idle hlength => exact h
  | clear c calls => exact absurd rfl he

/-- Without a clear the cache remembers the rules of all calls that have returned a formula. -/
theorem Tallied.run
    {history : List Event}
    (h : s.Tallied)
    (hhistory : .clear ∉ history) :
    (s.run history).Tallied := by
  induction history generalizing s with
  | nil => exact h
  | cons e history ih =>
      rw [List.mem_cons, not_or] at hhistory
      exact ih (h.step (steps_step s e) (Ne.symm hhistory.1)) hhistory.2

/-! ## The calls -/

theorem Steps.map_rule
    (h : Steps s e s') :
    s'.calls.map Call.rule = s.calls.map Call.rule ++ e.rule?.toList := by
  cases h with
  | call c calls rule => simp [Event.rule?]
  | turn h => simp [Event.rule?]
  | idle h => simp [Event.rule?]
  | clear c calls => simp [Event.rule?]

theorem map_rule_run
    (s : Shared) (history : List Event) :
    (s.run history).calls.map Call.rule =
      s.calls.map Call.rule ++ history.filterMap Event.rule? := by
  induction history generalizing s with
  | nil => exact (List.append_nil _).symm
  | cons e history ih =>
      have hall := ih (s.step e)
      rw [(steps_step s e).map_rule, List.append_assoc] at hall
      refine hall.trans (congrArg _ ?_)
      rw [List.filterMap_cons]
      cases e.rule? <;> rfl

end Shared

/-- The turns that a call needs at most until it is over. -/
def Stage.remaining : Stage → Nat
  | .begun => 3
  | .missed => 2
  | .read _ => 1
  | .returned _ => 0

theorem Stage.exists_of_remaining
    {stage : Stage}
    (h : stage.remaining = 0) :
    ∃ answer, stage = .returned answer := by
  cases stage with
  | returned answer => exact ⟨answer, rfl⟩
  | _ => simp [remaining] at h

theorem Cache.Turns.remaining_le
    {c c' : Cache} {rule : String} {stage stage' : Stage}
    (h : c.Turns rule stage c' stage') :
    stage'.remaining ≤ stage.remaining - 1 := by
  cases h <;> simp [Stage.remaining]

namespace Shared

variable {s s' : Shared} {e : Event} {number : Nat} {call : Call}

/-- A turn brings its own call nearer to its end and leaves the other calls where they are. -/
theorem Steps.remaining
    (h : Steps s e s')
    (hcall : s.calls[number]? = some call) :
    ∃ call', s'.calls[number]? = some call' ∧
      call'.stage.remaining ≤ call.stage.remaining - [e].count (.turn number) := by
  cases h with
  | call c calls rule =>
      obtain ⟨hlt, -⟩ := List.getElem?_eq_some_iff.mp hcall
      refine ⟨call, ?_, by simp⟩
      rw [List.getElem?_append_left hlt]
      exact hcall
  | @turn c c' before after rule stage stage' hturn =>
      by_cases hnumber : before.length = number
      · subst hnumber
        obtain rfl : ⟨rule, stage⟩ = call := by simpa using hcall
        exact ⟨⟨rule, stage'⟩, by simp, by simpa using hturn.remaining_le⟩
      · have hother : (before ++ ⟨rule, stage'⟩ :: after)[number]? =
            (before ++ ⟨rule, stage⟩ :: after)[number]? := by
          simp only [List.getElem?_append, List.getElem?_cons]
          split
          · rfl
          · rw [if_neg (by omega), if_neg (by omega)]
        exact ⟨call, hother.trans hcall, by simp [hnumber]⟩
  | @idle _ other h =>
      obtain ⟨hlt, -⟩ := List.getElem?_eq_some_iff.mp hcall
      have hother : other ≠ number := by omega
      exact ⟨call, hcall, by simp [hother]⟩
  | clear c calls => exact ⟨call, hcall, by simp⟩

theorem remaining_run
    (history : List Event)
    (hcall : s.calls[number]? = some call) :
    ∃ call', (s.run history).calls[number]? = some call' ∧
      call'.stage.remaining ≤ call.stage.remaining - history.count (.turn number) := by
  induction history generalizing s call with
  | nil => exact ⟨call, hcall, Nat.le_refl _⟩
  | cons e history ih =>
      obtain ⟨between, hbetween, hle⟩ := (steps_step s e).remaining hcall
      obtain ⟨call', hcall', hle'⟩ := ih hbetween
      refine ⟨call', hcall', ?_⟩
      rw [← List.singleton_append, List.count_append]
      omega

/-- Whatever else happens meanwhile, a call is over after three turns. -/
theorem returned_of_turns
    {history : List Event}
    (hnumber : number < s.calls.length)
    (hturns : 3 ≤ history.count (.turn number)) :
    ∃ call answer, (s.run history).calls[number]? = some call ∧ call.stage = .returned answer := by
  obtain ⟨call, hcall, hle⟩ := remaining_run history (List.getElem?_eq_getElem hnumber)
  have hmost : s.calls[number].stage.remaining ≤ 3 := by
    cases s.calls[number].stage <;> simp [Stage.remaining]
  have hnone : call.stage.remaining = 0 := by omega
  obtain ⟨answer, hanswer⟩ := Stage.exists_of_remaining hnone
  exact ⟨call, answer, hcall, hanswer⟩

/-- A call that is not interrupted fetches its rule. -/
theorem run_call_alone
    (c : Cache) (calls : List Call) (rule : String) :
    Shared.run ⟨c, calls⟩ [.call rule, .turn calls.length, .turn calls.length,
        .turn calls.length] =
      ⟨(c.fetch rule).2, calls ++ [⟨rule, .returned (c.fetch rule).1⟩]⟩ := by
  rcases Cache.fetch_cases c rule with ⟨f, hfind, h⟩ | ⟨f, hfind, hread, h⟩ | ⟨fault, hfind, hread, h⟩
  · simp [Shared.run, Shared.step, Cache.turn, hfind, h]
  · simp [Shared.run, Shared.step, Cache.turn, hfind, hread, h]
  · simp [Shared.run, Shared.step, Cache.turn, hfind, hread, h]

/-! ## Every history -/

/-- The cache and the calls after a history. -/
def after (capacity : Nat) (strict : Bool) (history : List Event) : Shared :=
  (start capacity strict).run history

theorem Sound.answer_eq
    {answer : Except Fault Formula}
    (h : s.Sound)
    (hcall : call ∈ s.calls)
    (hanswer : call.stage = .returned answer) :
    answer = Formula.ofText s.cache.strict call.rule := by
  have hcorrect := h.correct call hcall
  rwa [Call.Correct, hanswer] at hcorrect

/-- Once all calls are over, those that have returned a formula are those whose rule can be read. -/
theorem mem_served_iff
    (h : s.Sound)
    (hover : ∀ call ∈ s.calls, ∃ answer, call.stage = .returned answer)
    {rule : String} :
    rule ∈ s.calls.flatMap Call.served ↔
      rule ∈ s.calls.map Call.rule ∧ (Formula.ofText s.cache.strict rule).isOk = true := by
  rw [List.mem_flatMap, List.mem_map]
  constructor
  · rintro ⟨call, hcall, hserved⟩
    obtain ⟨answer, hanswer⟩ := hover call hcall
    have hread := h.answer_eq hcall hanswer
    cases answer with
    | error fault => simp [Call.served, hanswer] at hserved
    | ok f =>
        obtain rfl : rule = call.rule := by simpa [Call.served, hanswer] using hserved
        exact ⟨⟨call, hcall, rfl⟩, hread ▸ rfl⟩
  · rintro ⟨⟨call, hcall, rfl⟩, hok⟩
    obtain ⟨answer, hanswer⟩ := hover call hcall
    rw [← h.answer_eq hcall hanswer] at hok
    cases answer with
    | error fault => simp [Except.isOk, Except.toBool] at hok
    | ok f => exact ⟨call, hcall, by simp [Call.served, hanswer]⟩

/-- **Sharing.**  After any history of calls that take turns, with the cache cleared in between, the
cache keeps no more formulas than there is room for, and each of them is what its rule reads as.
Every call that is over has returned what its rule reads as.  If the cache was never cleared and all
calls are over, as many formulas are kept as different rules were asked for that can be read, or as
many as there is room for.  And every call is over after three turns, whatever happens in between. -/
theorem shared_cache_safe
    (capacity : Nat) (strict : Bool) (history : List Event) :
    (after capacity strict history).calls.map Call.rule = history.filterMap Event.rule? ∧
    (after capacity strict history).cache.size ≤ capacity ∧
    (∀ rule f, (after capacity strict history).cache.find? rule = some f →
      Formula.ofText strict rule = .ok f) ∧
    (∀ call ∈ (after capacity strict history).calls, ∀ answer,
      call.stage = .returned answer → answer = Formula.ofText strict call.rule) ∧
    (.clear ∉ history →
      (∀ call ∈ (after capacity strict history).calls, ∃ answer, call.stage = .returned answer) →
      (after capacity strict history).cache.size =
        min capacity ((history.filterMap Event.rule?).filter fun rule =>
          (Formula.ofText strict rule).isOk).toFinset.card) ∧
    (∀ number later, number < (after capacity strict history).calls.length →
      3 ≤ later.count (.turn number) →
      ∃ call answer, (after capacity strict (history ++ later)).calls[number]? = some call ∧
        call.stage = .returned answer) := by
  obtain ⟨hsound, hstrict, hcapacity⟩ := (sound_start capacity strict).run history
  change (after capacity strict history).Sound at hsound
  change (after capacity strict history).cache.strict = strict at hstrict
  change (after capacity strict history).cache.capacity = capacity at hcapacity
  have hrules : (after capacity strict history).calls.map Call.rule =
      history.filterMap Event.rule? :=
    map_rule_run (start capacity strict) history
  refine ⟨hrules, ?_, ?_, ?_, ?_, ?_⟩
  · exact hsound.size_le.trans_eq hcapacity
  · intro rule f hfind
    have hread := hsound.faithful rule f hfind
    rwa [hstrict] at hread
  · intro call hcall answer hanswer
    have hread := hsound.answer_eq hcall hanswer
    rwa [hstrict] at hread
  · intro hclear hover
    have htallied : (after capacity strict history).Tallied :=
      (tallied_start capacity strict).run hclear
    have hserved : ((after capacity strict history).calls.flatMap Call.served).toFinset =
        ((history.filterMap Event.rule?).filter fun rule =>
          (Formula.ofText strict rule).isOk).toFinset := by
      ext rule
      rw [List.mem_toFinset, List.mem_toFinset, List.mem_filter, mem_served_iff hsound hover,
        hrules, hstrict]
    have hsize := htallied.size_eq
    rwa [hcapacity, hserved] at hsize
  · intro number later hnumber hturns
    have hrun : after capacity strict (history ++ later) =
        (after capacity strict history).run later :=
      List.foldl_append
    rw [hrun]
    exact returned_of_turns hnumber hturns

/-- Two calls for one rule both miss it, a third finds no room for its formula, and a fourth cannot
be read. -/
theorem shared_cache_safe_race :
    ∃ history : List Event,
      history = [.call "a = 'x'", .call "a = 'x'", .turn 1, .turn 0, .call "b = 'y'", .call "(",
        .turn 2, .turn 2, .turn 0, .turn 0, .turn 2, .turn 3, .turn 1, .turn 3, .turn 1] ∧
      (∀ call ∈ (after 1 true history).calls, ∃ answer, call.stage = .returned answer) ∧
      (after 1 true history).cache.size = 1 ∧
      (after 1 true history).cache.find? "a = 'x'" = some (.leaf ⟨"a", .equal, .text "x"⟩) ∧
      Formula.ofText true "a = 'x'" = .ok (.leaf ⟨"a", .equal, .text "x"⟩) ∧
      ∃ call answer, (after 1 true (history ++ [.turn 3, .turn 3, .turn 3])).calls[3]? = some call ∧
        call.stage = .returned answer := by
  refine ⟨_, rfl, ?_⟩
  generalize hhistory : [Event.call "a = 'x'", .call "a = 'x'", .turn 1, .turn 0, .call "b = 'y'",
    .call "(", .turn 2, .turn 2, .turn 0, .turn 0, .turn 2, .turn 3, .turn 1, .turn 3,
    .turn 1] = history
  obtain ⟨-, -, hkept, -, hsize, hturns⟩ := shared_cache_safe 1 true history
  have hclear : .clear ∉ history := by
    rw [← hhistory]
    decide
  have hover : ∀ call ∈ (after 1 true history).calls, ∃ answer, call.stage = .returned answer := by
    have hnone : ∀ call ∈ (after 1 true history).calls, call.stage.remaining = 0 := by
      rw [← hhistory]
      decide +kernel
    exact fun call hcall => Stage.exists_of_remaining (hnone call hcall)
  have hrules : ((history.filterMap Event.rule?).filter fun rule =>
      (Formula.ofText true rule).isOk).toFinset.card = 2 := by
    rw [← hhistory]
    decide +kernel
  have hfind : (after 1 true history).cache.find? "a = 'x'" =
      some (.leaf ⟨"a", .equal, .text "x"⟩) := by
    rw [← hhistory]
    decide +kernel
  have hfour : 3 < (after 1 true history).calls.length := by
    rw [← hhistory]
    decide +kernel
  have hone : (after 1 true history).cache.size = 1 := by
    rw [hsize hclear hover, hrules]
    rfl
  exact ⟨hover, hone, hfind, hkept _ _ hfind, hturns 3 _ hfour (by decide)⟩

end Shared
end Eligibility
