import Eligibility.Condition.Reading
import Eligibility.Formula.Basic
import Eligibility.Json.Value

/-!
# Stored formulas

A formula is stored as a tree of nodes of one loose shape: a kind, and a connective, a condition
text and two children that may each be absent.  `Node.toFormula` accepts the nodes that are
formulas; of the parts that a kind has no use for it refuses the children of a leaf and passes over
the others.  `Node.ofFormula` fills in exactly what a formula needs.
-/

namespace Eligibility
namespace Stored

/-- What a node says it is. -/
inductive Kind
  | inner
  | leaf
deriving DecidableEq, Inhabited, Repr

namespace Kind

/-- The name of the kind in documents. -/
def name : Kind → String
  | inner => "operator"
  | leaf => "operand"

/-- The kind with a name. -/
def ofName? (s : String) : Option Kind :=
  if s = "operator" then some inner else if s = "operand" then some leaf else none

end Kind

/-- A node as it is stored. -/
inductive Node
  | mk (kind : Kind) (connective : Option Connective) (value : Option String)
    (left right : Option Node)
deriving Inhabited, Repr

namespace Node

/-- The formula that a node at a level stands for.  A node is checked before its left child, and
that before its right child. -/
def toFormulaAt (level : Nat) : Node → Except Fault Formula
  | mk .leaf _ value left right =>
    if Formula.maxDepth < level then .error (.tooDeep Formula.maxDepth)
    else if left.isSome || right.isSome then .error .leafWithChildren
    else match value with
      | none => .error .leafWithoutValue
      | some text =>
        match Condition.ofText text with
        | .ok c => .ok (.leaf c)
        | .error fault => .error fault
  | mk .inner connective _ (some left) (some right) =>
    if Formula.maxDepth < level then .error (.tooDeep Formula.maxDepth)
    else match connective with
      | none => .error .nodeWithoutConnective
      | some k =>
        match left.toFormulaAt (level + 1) with
        | .error fault => .error fault
        | .ok l =>
          match right.toFormulaAt (level + 1) with
          | .error fault => .error fault
          | .ok r => .ok (.join k l r)
  | mk .inner connective _ _ _ =>
    if Formula.maxDepth < level then .error (.tooDeep Formula.maxDepth)
    else match connective with
      | none => .error .nodeWithoutConnective
      | some k => .error (.missingChild k)
termination_by structural n => n

/-- The formula that a node stands for. -/
def toFormula (n : Node) : Except Fault Formula :=
  n.toFormulaAt 1

/-- The node of a formula. -/
def ofFormula : Formula → Node
  | .leaf c => mk .leaf none (some c.shown) none none
  | .join k left right => mk .inner (some k) none (some (ofFormula left)) (some (ofFormula right))

/-- The value of a node: its filled-in parts in their fixed order. -/
def toValue : Node → Json.Value
  | mk kind connective value left right =>
    let part (key : String) (v : Option Json.Value) := (v.map fun v => (key, v)).toList
    .object (("type", .text kind.name) ::
      (part "operator" (connective.map fun k => .text k.word) ++
        part "value" (value.map .text) ++
        part "left" (match left with | some n => some n.toValue | none => none) ++
        part "right" (match right with | some n => some n.toValue | none => none)))
termination_by structural n => n

end Node
end Stored

namespace Formula

/-- The value that a formula is stored as. -/
def toValue (f : Formula) : Json.Value :=
  (Stored.Node.ofFormula f).toValue

/-- The text that a formula is stored as. -/
def toJson (f : Formula) : String :=
  f.toValue.write

end Formula
end Eligibility
