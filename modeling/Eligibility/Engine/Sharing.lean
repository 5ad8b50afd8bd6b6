import Eligibility.Engine.Cache

/-!
# A cache that is shared

Callers that share a cache hold it for one section at a time: to look a rule up, to keep a formula or
to clear the cache.  A call for a rule looks it up first.  If the rule is not found, the call reads it
without holding the cache, and holds the cache once more to keep the formula.  Between two sections
of one call any number of sections of other calls may come, so in between the same rule may have been
kept, or the cache may have been filled or cleared.

Calls are numbered in the order in which they begin, and a call is never forgotten.  A history says
which calls begin, whose turn it is and when the cache is cleared.
-/

namespace Eligibility

/-- How far a call has come. -/
inductive Stage
  /-- The rule is to be looked up. -/
  | begun
  /-- The rule was not found and is to be read. -/
  | missed
  /-- The rule has been read and its formula is to be kept. -/
  | read (formula : Formula)
  /-- The call is over. -/
  | returned (answer : Except Fault Formula)

/-- A call for the formula of a rule. -/
structure Call where
  rule : String
  stage : Stage

/-- What happens next. -/
inductive Event
  /-- A call for a rule begins. -/
  | call (rule : String)
  /-- A call takes its next step. -/
  | turn (number : Nat)
  /-- The cache is cleared. -/
  | clear
deriving DecidableEq

/-- The rule that is asked for, if a call begins. -/
def Event.rule? : Event → Option String
  | call rule => some rule
  | _ => none

namespace Cache

/-- The next step of a call for a rule. -/
def turn (c : Cache) (rule : String) : Stage → Cache × Stage
  | .begun =>
    match c.find? rule with
    | some f => (c, .returned (.ok f))
    | none => (c, .missed)
  | .missed =>
    match Formula.ofText c.strict rule with
    | .ok f => (c, .read f)
    | .error fault => (c, .returned (.error fault))
  | .read f => (c.keep rule f, .returned (.ok f))
  | .returned answer => (c, .returned answer)

end Cache

/-- A cache and the calls that have begun. -/
structure Shared where
  cache : Cache
  calls : List Call

namespace Shared

/-- A cache that keeps nothing yet, and no calls. -/
def start (capacity : Nat) (strict : Bool) : Shared :=
  ⟨Cache.empty capacity strict, []⟩

/-- What an event changes. -/
def step (s : Shared) : Event → Shared
  | .call rule => { s with calls := s.calls ++ [⟨rule, .begun⟩] }
  | .turn number =>
    match s.calls[number]? with
    | some call =>
      let done := s.cache.turn call.rule call.stage
      ⟨done.1, s.calls.set number ⟨call.rule, done.2⟩⟩
    | none => s
  | .clear => { s with cache := s.cache.clear }

/-- What a history changes. -/
def run (s : Shared) (history : List Event) : Shared :=
  history.foldl step s

end Shared
end Eligibility
