import Eligibility.Json.Nesting
import Eligibility.Json.Reader
import Eligibility.Stored.Node
import Eligibility.Text.Position

/-!
# Reading stored formulas

A node is read from an object, or from a list of its parts in their fixed order.  Parts that are
absent or null stay empty, members under other keys are skipped, and a known key must not occur
twice.

**Three ways in.**  `Formula.ofJson` reads a text and `Formula.ofValue` a value; both measure the
nesting first and then read without a limit, the one the document of the text and the other the value
itself.  `Formula.ofJsonWithin` reads a text with a limit on the containers that are entered, and turns
every fault into one of the document.
-/

namespace Eligibility
namespace Stored

open Json

/-- The parts of a node in their fixed order. -/
inductive Part
  | kind
  | connective
  | value
  | left
  | right
deriving DecidableEq, Inhabited, Repr

namespace Part

/-- The part under a key. -/
def ofKey? (key : String) : Option Part :=
  if key = "type" then some kind
  else if key = "operator" then some connective
  else if key = "value" then some value
  else if key = "left" then some left
  else if key = "right" then some right
  else none

/-- The part at a position in a list. -/
def ofPosition? : Nat → Option Part
  | 0 => some kind
  | 1 => some connective
  | 2 => some value
  | 3 => some left
  | 4 => some right
  | _ => none

end Part

/-- The parts of a node that have been read so far. -/
structure Parts where
  kind : Option Kind
  connective : Option (Option Connective)
  value : Option (Option String)
  left : Option (Option Node)
  right : Option (Option Node)
deriving Inhabited

namespace Parts

/-- Nothing read yet. -/
def empty : Parts :=
  ⟨none, none, none, none, none⟩

/-- The node, if its kind is known. -/
def node? (p : Parts) : Option Node :=
  p.kind.map fun kind =>
    .mk kind p.connective.join p.value.join p.left.join p.right.join

/-- Reads a part that has not been read before; `child` reads the same document or value as a
node. -/
def fill? (p : Parts) (part : Part) (x : Surface) (child : Unit → Option Node) : Option Parts :=
  match part with
  | .kind =>
    if p.kind.isSome then none
    else (x.name?.bind Kind.ofName?).map fun v => { p with kind := some v }
  | .connective =>
    if p.connective.isSome then none
    else (x.optional fun _ => x.name?.bind Connective.ofWord?).map fun v =>
      { p with connective := some v }
  | .value =>
    if p.value.isSome then none
    else (x.optional fun _ => x.text?).map fun v => { p with value := some v }
  | .left =>
    if p.left.isSome then none
    else (x.optional child).map fun v => { p with left := some v }
  | .right =>
    if p.right.isSome then none
    else (x.optional child).map fun v => { p with right := some v }

end Parts

namespace Node

mutual

/-- The node that a document spells. -/
def read? (allowance : Allowance) : Document → Option Node
  | .object members closed =>
    match enter? allowance with
    | some inside => (readMembers? inside Parts.empty closed members).bind Parts.node?
    | none => none
  | .list items closed =>
    match enter? allowance with
    | some inside => (readItems? inside Parts.empty 0 closed items).bind Parts.node?
    | none => none
  | _ => none
termination_by structural d => d

/-- Reads the further members of an object. -/
def readMembers? (allowance : Allowance) (parts : Parts) (closed : Bool) :
    List (Option String × Document) → Option Parts
  | [] => if closed then some parts else none
  | (key, d) :: members =>
    match key with
    | none => none
    | some key =>
      match Part.ofKey? key with
      | none => readMembers? allowance parts closed members
      | some part =>
        match parts.fill? part (d.surface allowance) fun _ => read? allowance d with
        | some parts => readMembers? allowance parts closed members
        | none => none
termination_by structural members => members

/-- Reads the further elements of a list. -/
def readItems? (allowance : Allowance) (parts : Parts) (position : Nat) (closed : Bool) :
    List Document → Option Parts
  | [] => if closed then some parts else none
  | d :: items =>
    match Part.ofPosition? position with
    | none => none
    | some part =>
      match parts.fill? part (d.surface allowance) fun _ => read? allowance d with
      | some parts => readItems? allowance parts (position + 1) closed items
      | none => none
termination_by structural items => items

end

mutual

/-- The node that a value spells. -/
def ofValue? : Value → Option Node
  | .object members => (ofMembers? Parts.empty members).bind Parts.node?
  | .list items => (ofItems? Parts.empty 0 items).bind Parts.node?
  | _ => none
termination_by structural v => v

/-- Reads the further members of an object. -/
def ofMembers? (parts : Parts) : List (String × Value) → Option Parts
  | [] => some parts
  | (key, v) :: members =>
    match Part.ofKey? key with
    | none => ofMembers? parts members
    | some part =>
      match parts.fill? part v.surface fun _ => ofValue? v with
      | some parts => ofMembers? parts members
      | none => none
termination_by structural members => members

/-- Reads the further elements of a list. -/
def ofItems? (parts : Parts) (position : Nat) : List Value → Option Parts
  | [] => some parts
  | v :: items =>
    match Part.ofPosition? position with
    | none => none
    | some part =>
      match parts.fill? part v.surface fun _ => ofValue? v with
      | some parts => ofItems? parts (position + 1) items
      | none => none
termination_by structural items => items

end

/-- The node of a whole text, read within an allowance. -/
def ofJson? (allowance : Allowance) (s : String) : Option Node :=
  match Document.ofText s with
  | (d, []) => read? allowance d
  | (_, _ :: _) => none

end Node

/-- Refuses documents that nest more deeply than a limit. -/
def checkNesting (levels limit : Nat) : Except Fault Unit :=
  if limit < levels then .error (.nestedTooDeep levels limit) else .ok ()

/-- The formula of a document, every fault of which counts as one of the document.  The report on a
document `inside` a larger one is located there, unless the message knows better. -/
def readFormula (inside : Bool) (allowance : Allowance) (d : Document) : Except Fault Formula :=
  match Node.read? allowance d with
  | none => .error .malformedDocument
  | some node =>
    match node.toFormula with
    | .ok f => .ok f
    | .error fault =>
      match Text.passOn fault.message with
      | (detail, located) => .error (.badStoredFormula detail (located || inside))

end Stored

namespace Json

/-- The containers that may be entered inside one another where no other limit is set. -/
def usualAllowance : Allowance := some 127

end Json

namespace Connective

/-- The connective that is stored in a text. -/
def ofJson (s : String) : Except Fault Connective :=
  match Json.Document.ofText s with
  | (d, []) =>
    match (d.name? Json.usualAllowance).bind ofWord? with
    | some k => .ok k
    | none => .error .malformedDocument
  | (_, _ :: _) => .error .malformedDocument

/-- The text that a connective is stored as. -/
def toJson (k : Connective) : String :=
  (Json.Value.text k.word).write

end Connective

namespace Formula

open Stored

/-- The formula that a node stands for, if there is a node. -/
def ofNode? : Option Node → Except Fault Formula
  | some node => node.toFormula
  | none => .error .malformedDocument

/-- The formula that is stored in a text. -/
def ofJson (s : String) : Except Fault Formula :=
  match checkNesting (Json.textNesting s) maxDepth with
  | .ok () => ofNode? (Node.ofJson? none s)
  | .error fault => .error fault

/-- The formula that is stored in a value. -/
def ofValue (v : Json.Value) : Except Fault Formula :=
  match checkNesting v.nesting maxDepth with
  | .ok () => ofNode? (Node.ofValue? v)
  | .error fault => .error fault

/-- The formula that is stored in a text, read within an allowance. -/
def ofJsonWithin (allowance : Json.Allowance) (s : String) : Except Fault Formula :=
  match Json.Document.ofText s with
  | (d, rest) =>
    match readFormula false allowance d with
    | .error fault => .error fault
    | .ok f => if rest.isEmpty then .ok f else .error .malformedDocument

end Formula
end Eligibility
