import Eligibility.Engine.Session
import Eligibility.Proofs.Engine.Cache

/-!
# Sessions of one engine

Whatever has been kept, an engine answers a request from the request and its settings alone, and
uses its cache in a way that the request alone determines.  So the answers of a session are those of
its requests, and what it leaves in the cache is what their uses leave there.  Rules are combined up
to the first that cannot be read, and only those before it are used.

**Results.**
* `perform_eq`, `performAll_eq`: the answers and the engine after one request and after a session;
* `answers_of_session`: the answers of a session, whatever was asked before;
* `size_after_uses`: the number of kept formulas after any uses and after any session.
-/

namespace Eligibility

/-- The answer of a request, without a cache. -/
def Request.answer (strict : Bool) (strategy : Strategy) : Request → Except Fault Outcome
  | .parse rule => (Formula.ofText strict rule).map .formula
  | .compile name rule => (Formula.ofText strict rule).map fun f => .rule ⟨name, f⟩
  | .check rule record =>
    (Formula.ofText strict rule).bind fun f => (f.verdict strategy record).map .verdict
  | .evaluate formula record => (formula.verdict strategy record).map .verdict
  | .evaluateJson formula record =>
    (Formula.ofJson formula).bind fun f =>
      (Record.ofJson record).bind fun r => (f.verdict strategy r).map .verdict
  | .combine rules =>
    ((rules.mapM (Formula.ofText strict)).bind Formula.conjunction).map .formula
  | .load json => (NamedRule.ofJson json).map .rule
  | .clear => .ok .cleared

/-- What a request does with the cache. -/
def Request.uses (strict : Bool) : Request → List Cache.Use
  | .parse rule => [.fetch rule]
  | .compile _ rule => [.fetch rule]
  | .check rule _ => [.fetch rule]
  | .combine rules =>
    (rules.takeWhile fun rule => (Formula.ofText strict rule).isOk).map .fetch
  | .clear => [.clear]
  | .evaluate _ _ => []
  | .evaluateJson _ _ => []
  | .load _ => []

namespace Engine

/-- The cache reads as the engine is set to, and every formula that it keeps is what its rule reads
as. -/
structure Sound (e : Engine) : Prop where
  strict : e.cache.strict = e.settings.strict
  faithful : e.cache.Faithful

theorem sound_new (s : Settings) : (new s).Sound where
  strict := rfl
  faithful := Cache.faithful_empty s.capacity s.strict

/-- The engine after some uses of its cache. -/
def after (e : Engine) (uses : List Cache.Use) : Engine :=
  { e with cache := e.cache.useAll uses }

@[simp] theorem settings_after
    (e : Engine) (uses : List Cache.Use) :
    (e.after uses).settings = e.settings := by
  rfl

@[simp] theorem after_after
    (e : Engine) (earlier later : List Cache.Use) :
    (e.after earlier).after later = e.after (earlier ++ later) := by
  simp [after, Cache.useAll]

theorem Sound.after
    {e : Engine}
    (h : e.Sound)
    (uses : List Cache.Use) :
    (e.after uses).Sound where
  strict := (Cache.strict_useAll e.cache uses).trans h.strict
  faithful := h.faithful.useAll uses

/-! ## One rule and several rules -/

theorem parse_eq
    {e : Engine}
    (h : e.Sound)
    (rule : String) :
    e.parse rule = (Formula.ofText e.settings.strict rule, e.after [.fetch rule]) := by
  rw [← h.strict, ← Cache.fetch_fst h.faithful rule]
  rfl

/-- A rule that cannot be read leaves the engine as it was. -/
theorem parse_snd_of_error
    {e : Engine} {rule : String} {fault : Fault}
    (h : (e.parse rule).1 = .error fault) :
    (e.parse rule).2 = e := by
  have hcache : (e.cache.fetch rule).2 = e.cache := Cache.fetch_snd_of_error h
  rw [parse, hcache]

/-- Rules are read in order up to the first that cannot be read, which changes nothing. -/
theorem parseAll_eq
    {e : Engine}
    (h : e.Sound)
    (rules : List String) :
    e.parseAll rules =
      (rules.mapM (Formula.ofText e.settings.strict),
        e.after ((Request.combine rules).uses e.settings.strict)) := by
  induction rules generalizing e with
  | nil => rfl
  | cons rule rules ih =>
      have hparse := parse_eq h rule
      rw [List.mapM_cons]
      cases hread : Formula.ofText e.settings.strict rule with
      | error fault =>
          rw [hread] at hparse
          have hstay : e.after [.fetch rule] = e := by
            simpa only [hparse] using parse_snd_of_error (congrArg Prod.fst hparse)
          simp only [parseAll, hparse, hstay, Request.uses, List.takeWhile_cons, hread]
          rfl
      | ok f =>
          have hrest := ih (h.after [.fetch rule])
          rw [settings_after, after_after] at hrest
          simp only [parseAll, hparse, hread, hrest, Request.uses, List.takeWhile_cons]
          cases rules.mapM (Formula.ofText e.settings.strict) <;> rfl

/-! ## Requests -/

/-- One request is answered and uses the cache as it alone determines. -/
theorem perform_eq
    {e : Engine}
    (h : e.Sound)
    (request : Request) :
    e.perform request =
      (request.answer e.settings.strict e.settings.strategy,
        e.after (request.uses e.settings.strict)) := by
  cases request with
  | parse rule =>
      simp only [perform, parse_eq h]
      rfl
  | compile name rule =>
      simp only [perform, compile, parse_eq h, Request.answer]
      cases Formula.ofText e.settings.strict rule <;> rfl
  | check rule record =>
      simp only [perform, check, parse_eq h, Request.answer]
      cases Formula.ofText e.settings.strict rule <;> rfl
  | evaluate formula record => rfl
  | evaluateJson formula record =>
      simp only [perform, evaluateJson, Request.answer]
      cases Formula.ofJson formula with
      | error fault => rfl
      | ok f => cases Record.ofJson record <;> rfl
  | combine rules =>
      simp only [perform, combine, parseAll_eq h]
      rfl
  | load json => rfl
  | clear => rfl

/-- The answers of a session do not depend on the cache, and the cache depends only on its uses. -/
theorem performAll_eq
    {e : Engine}
    (h : e.Sound)
    (requests : List Request) :
    e.performAll requests =
      (requests.map (Request.answer e.settings.strict e.settings.strategy),
        e.after (requests.flatMap (Request.uses e.settings.strict))) := by
  induction requests generalizing e with
  | nil => rfl
  | cons request requests ih =>
      have hlater := ih (h.after (request.uses e.settings.strict))
      rw [settings_after, after_after] at hlater
      rw [performAll, perform_eq h, hlater]
      rfl

theorem Sound.performAll
    {e : Engine}
    (h : e.Sound)
    (requests : List Request) :
    (e.performAll requests).2.Sound := by
  rw [performAll_eq h]
  exact h.after _

/-- **Answers.**  Every request of a session is answered as if it were the only one, and neither the
capacity of the cache nor what was asked before changes an answer. -/
theorem answers_of_session
    (s : Settings) (requests : List Request) :
    ((new s).performAll requests).1 = requests.map (Request.answer s.strict s.strategy) ∧
    ∀ (capacity : Nat) (earlier : List Request),
      (((new { s with capacity := capacity }).performAll earlier).2.performAll requests).1 =
        ((new s).performAll requests).1 := by
  have hnew : ((new s).performAll requests).1 =
      requests.map (Request.answer s.strict s.strategy) := by
    rw [performAll_eq (sound_new s)]
    rfl
  refine ⟨hnew, ?_⟩
  intro capacity earlier
  have hsound := sound_new { s with capacity := capacity }
  rw [hnew, performAll_eq (hsound.performAll earlier), performAll_eq hsound]
  rfl

/-- **Entries.**  However a cache and an engine are used, as many formulas are kept as different
rules were read since the last clearing, or as many as there is room for.  A rule that cannot be
read, evaluating and loading change nothing. -/
theorem size_after_uses :
    (∀ (capacity : Nat) (strict : Bool) (uses : List Cache.Use),
      ((Cache.empty capacity strict).useAll uses).size =
        min capacity (Cache.readSince strict uses).toFinset.card) ∧
    (∀ (s : Settings) (requests : List Request),
      ((new s).performAll requests).2.cache.size =
        min s.capacity
          (Cache.readSince s.strict (requests.flatMap (Request.uses s.strict))).toFinset.card) ∧
    (∀ (e : Engine) (rule : String) (fault : Fault), (e.parse rule).1 = .error fault →
      (e.perform (.parse rule)).2 = e ∧
      (∀ name, (e.perform (.compile name rule)).2 = e) ∧
      ∀ record, (e.perform (.check rule record)).2 = e) ∧
    ∀ e : Engine,
      (∀ formula record, (e.perform (.evaluate formula record)).2 = e) ∧
      (∀ formula record, (e.perform (.evaluateJson formula record)).2 = e) ∧
      ∀ json, (e.perform (.load json)).2 = e := by
  refine ⟨Cache.size_useAll, ?_, ?_, fun e => ⟨fun _ _ => rfl, fun _ _ => rfl, fun _ => rfl⟩⟩
  · intro s requests
    rw [performAll_eq (sound_new s)]
    exact Cache.size_useAll s.capacity s.strict _
  · intro e rule fault h
    have hparse := parse_snd_of_error h
    exact ⟨hparse, fun _ => hparse, fun _ => hparse⟩

/-- Three requests: one rule twice, one that cannot be read, and one behind it. -/
theorem size_after_uses_unread_rules :
    ((new { capacity := 2 }).performAll
        [.parse "a = 'x'", .check "b = 'y'" Keyed.empty,
          .combine ["a = 'x'", "c = 'z'", "(", "d = 'z'"]]).2.cache.size = 2 ∧
    ((new { capacity := 9 }).performAll
        [.parse "a = 'x'", .check "b = 'y'" Keyed.empty,
          .combine ["a = 'x'", "c = 'z'", "(", "d = 'z'"]]).2.cache.size = 3 ∧
    ((new {}).parse "(").1 = .error .unbalanced ∧
    ((new {}).perform (.compile "open" "(")).2 = new {} := by
  have hread : (Cache.readSince false
      ([.parse "a = 'x'", .check "b = 'y'" Keyed.empty,
        .combine ["a = 'x'", "c = 'z'", "(", "d = 'z'"]].flatMap (Request.uses false))) =
      ["a = 'x'", "b = 'y'", "a = 'x'", "c = 'z'"] := by
    decide +kernel
  have hcard : ["a = 'x'", "b = 'y'", "a = 'x'", "c = 'z'"].toFinset.card = 3 := by
    decide
  have hopen : ((new {}).parse "(").1 = .error .unbalanced := by
    decide +kernel
  refine ⟨?_, ?_, hopen, (size_after_uses.2.2.1 _ _ _ hopen).2.1 "open"⟩
  · rw [size_after_uses.2.1, hread, hcard]
    rfl
  · rw [size_after_uses.2.1, hread, hcard]
    rfl

end Engine
end Eligibility
