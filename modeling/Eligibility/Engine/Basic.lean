import Eligibility.Engine.Cache
import Eligibility.Engine.Settings
import Eligibility.Formula.Conjunction
import Eligibility.Record.Reading
import Eligibility.Stored.NamedRule

/-!
# The engine

An engine reads rules with its settings, keeps their formulas, combines them and evaluates them.
Its only state is the cache; every operation returns its answer and the engine afterwards.
-/

namespace Eligibility

/-- Settings and the formulas that have been kept. -/
structure Engine where
  settings : Settings
  cache : Cache

namespace Engine

/-- An engine that has not read any rule. -/
def new (s : Settings) : Engine :=
  ⟨s, Cache.empty s.capacity s.strict⟩

/-- Reads a rule, or takes its formula from the cache. -/
def parse (e : Engine) (rule : String) : Except Fault Formula × Engine :=
  let fetched := e.cache.fetch rule
  (fetched.1, { e with cache := fetched.2 })

/-- Reads a rule and gives it a name. -/
def compile (e : Engine) (name rule : String) : Except Fault NamedRule × Engine :=
  let parsed := e.parse rule
  (parsed.1.map fun f => ⟨name, f⟩, parsed.2)

/-- The verdict of a formula on a record. -/
def evaluate (e : Engine) (f : Formula) (r : Record) : Except Fault Bool :=
  f.verdict e.settings.strategy r

/-- The verdict of a stored formula on a stored record. -/
def evaluateJson (e : Engine) (formula record : String) : Except Fault Bool :=
  match Formula.ofJson formula with
  | .error fault => .error fault
  | .ok f =>
    match Record.ofJson record with
    | .error fault => .error fault
    | .ok r => e.evaluate f r

/-- The verdict of a rule on a record. -/
def check (e : Engine) (rule : String) (r : Record) : Except Fault Bool × Engine :=
  let parsed := e.parse rule
  (parsed.1.bind fun f => parsed.2.evaluate f r, parsed.2)

/-- Reads rules in order, up to the first that cannot be read. -/
def parseAll (e : Engine) : List String → Except Fault (List Formula) × Engine
  | [] => (.ok [], e)
  | rule :: rules =>
    match e.parse rule with
    | (.error fault, e) => (.error fault, e)
    | (.ok f, e) =>
      match e.parseAll rules with
      | (.error fault, e) => (.error fault, e)
      | (.ok fs, e) => (.ok (f :: fs), e)

/-- The conjunction of rules. -/
def combine (e : Engine) (rules : List String) : Except Fault Formula × Engine :=
  let parsed := e.parseAll rules
  (parsed.1.bind Formula.conjunction, parsed.2)

/-- Forgets the formulas that have been kept. -/
def clear (e : Engine) : Engine :=
  { e with cache := e.cache.clear }

end Engine
end Eligibility
