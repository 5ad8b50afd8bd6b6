import Eligibility.Formula.Verdict
import Eligibility.Json.Reader
import Eligibility.Json.Value

/-!
# Settings

What an engine can be told: whether stray text in rules is refused, how formulas are evaluated, and
how many rules are kept.  Each setting has a default.  Settings are read from an object, or from a
list in their fixed order that may end early; no other key is accepted.
-/

namespace Eligibility

/-- The settings of an engine. -/
structure Settings where
  /-- Whether rules with stray text between their tokens are refused. -/
  strict : Bool := false
  /-- How formulas are evaluated. -/
  strategy : Strategy := .eager
  /-- How many rules are kept. -/
  capacity : Nat := 1024
deriving DecidableEq, Inhabited, Repr

namespace Settings

open Json

/-- The keys of the settings in their fixed order. -/
def keys : List String :=
  ["strict_tokens", "strategy", "cache_capacity"]

/-- Refuses names of no setting. -/
def checkKeys : List String → Except Fault Unit
  | [] => .ok ()
  | key :: more =>
    if key ∈ keys then checkKeys more else .error (.unknownSetting key keys)

/-- The value that settings are stored as. -/
def toValue (s : Settings) : Value :=
  .object [("strict_tokens", .bool s.strict), ("strategy", .text s.strategy.name),
    ("cache_capacity", .number (Numeral.ofInt s.capacity))]

/-- The text that settings are stored as. -/
def toJson (s : Settings) : String :=
  s.toValue.write

/-- The settings read so far. -/
structure Given where
  strict : Option Bool := none
  strategy : Option Strategy := none
  capacity : Option Nat := none
deriving DecidableEq, Inhabited, Repr

/-- The settings, with defaults for those that are not given. -/
def ofGiven (g : Given) : Settings :=
  let defaults : Settings := {}
  ⟨g.strict.getD defaults.strict, g.strategy.getD defaults.strategy,
    g.capacity.getD defaults.capacity⟩

/-- The strategy that a document names, as it is stored. -/
def readStrategy? (d : Document) : Option Strategy :=
  (d.name? none).bind fun name => [Strategy.eager, .shortCircuit].find? fun s => s.name = name

/-- Reads the setting under a key that has not been given before. -/
def give? (g : Given) (key : String) (d : Document) : Option Given :=
  if key = "strict_tokens" then
    match g.strict, d with
    | none, .bool b => some { g with strict := some b }
    | _, _ => none
  else if key = "strategy" then
    match g.strategy, readStrategy? d with
    | none, some s => some { g with strategy := some s }
    | _, _ => none
  else if key = "cache_capacity" then
    match g.capacity, d with
    | none, .number n => n.natural?.map fun v => { g with capacity := some v }
    | _, _ => none
  else none

/-- Reads the further members of an object. -/
def readMembers? (g : Given) : List (Option String × Document) → Option Given
  | [] => some g
  | (key, d) :: members =>
    match key with
    | none => none
    | some key =>
      match give? g key d with
      | some g => readMembers? g members
      | none => none

/-- Reads the further elements of a list, given the keys that they stand under. -/
def readItems? (g : Given) : List String → List Document → Option Given
  | _, [] => some g
  | [], _ :: _ => none
  | key :: keys, d :: items =>
    match give? g key d with
    | some g => readItems? g keys items
    | none => none

/-- The settings that a document spells. -/
def read? : Document → Option Settings
  | .object members true => (readMembers? {} members).map ofGiven
  | .list items true => (readItems? {} keys items).map ofGiven
  | _ => none

/-- The settings that are stored in a text. -/
def ofJson (s : String) : Except Fault Settings :=
  match Document.ofText s with
  | (d, []) =>
    match read? d with
    | some settings => .ok settings
    | none => .error .malformedDocument
  | (_, _ :: _) => .error .malformedDocument

end Settings
end Eligibility
