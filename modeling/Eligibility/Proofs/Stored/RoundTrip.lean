import Eligibility.Proofs.Formula.RuleText
import Eligibility.Proofs.Json.Nesting
import Eligibility.Proofs.Json.Written
import Eligibility.Proofs.Stored.Node
import Eligibility.Stored.NamedRule

/-!
# Storing and loading

A node is read back from the value that it is stored as, whichever of its parts are filled in, and a
formula is put together again from its node if it is no deeper than what is read.

**Results.**
* `read?_toValue`: every node is read back from its value;
* `nesting_toValue`: the value of a formula nests as deeply as the formula;
* `toFormulaAt_ofFormula`: a formula is put together again from its node;
* `loaders_agree`: a value and its text load alike, whatever the value is;
* `load_stored`: a stored formula loads as itself, from a text, from a value and from a named rule.
-/

namespace Eligibility
namespace Stored
namespace Node

open Json
open Value (membersToDocuments MembersDistinct)

/-- The member for a part, if the part is filled in. -/
def member (key : String) (v : Option Value) : List (String × Value) :=
  (v.map fun v => (key, v)).toList

theorem toValue_mk
    (kind : Kind) (connective : Option Connective) (value : Option String)
    (left right : Option Node) :
    (mk kind connective value left right).toValue =
      .object [member "type" ((some kind).map fun k => .text k.name),
        member "operator" (connective.map fun k => .text k.word),
        member "value" (value.map .text),
        member "left" (left.map toValue),
        member "right" (right.map toValue)].flatten := by
  cases left <;> cases right <;> simp [toValue, member]

/-- A member is read into its part, which stays empty if the member is absent. -/
theorem readMembers?_member
    {α : Type} {key : String} {part : Part} {p : Parts}
    (hkey : Part.ofKey? key = some part)
    (put : Option α → Parts) (write : α → Value) {content : Option α}
    (hempty : put none = p)
    (hfill : ∀ a, content = some a →
      (p.fill? part ((write a).toDocument.surface none) fun _ => read? none (write a).toDocument) =
        some (put (some a)))
    (closed : Bool) (rest : List (String × Value)) :
    readMembers? none p closed (membersToDocuments (member key (content.map write) ++ rest)) =
      readMembers? none (put content) closed (membersToDocuments rest) := by
  cases content with
  | none =>
      rw [hempty]
      rfl
  | some a =>
      have hmember : readMember? none p (some key, (write a).toDocument) = some (put (some a)) := by
        rw [readMember?, Option.bind_some, hkey]
        exact hfill a rfl
      change readMembers? none p closed
        ((some key, (write a).toDocument) :: membersToDocuments rest) = _
      rw [readMembers?_cons, hmember, Option.bind_some]

theorem readMembers?_kind
    (kind : Kind) (closed : Bool) (rest : List (String × Value)) :
    readMembers? none Parts.empty closed
        (membersToDocuments (member "type" ((some kind).map fun k => .text k.name) ++ rest)) =
      readMembers? none { Parts.empty with kind := some kind } closed
        (membersToDocuments rest) := by
  refine readMembers?_member rfl (fun k => { Parts.empty with kind := k }) _ rfl ?_ closed rest
  rintro k ⟨⟩
  exact Parts.fill?_kind rfl kind

theorem readMembers?_connective
    {p : Parts} (hp : p.connective = none)
    (connective : Option Connective) (closed : Bool) (rest : List (String × Value)) :
    readMembers? none p closed
        (membersToDocuments (member "operator" (connective.map fun k => .text k.word) ++ rest)) =
      readMembers? none { p with connective := connective.map some } closed
        (membersToDocuments rest) := by
  refine readMembers?_member rfl (fun k => { p with connective := k.map some }) _ ?_ ?_ closed rest
  · rw [Option.map_none, ← hp]
  · intro k _
    exact Parts.fill?_connective hp k

theorem readMembers?_value
    {p : Parts} (hp : p.value = none)
    (value : Option String) (closed : Bool) (rest : List (String × Value)) :
    readMembers? none p closed (membersToDocuments (member "value" (value.map .text) ++ rest)) =
      readMembers? none { p with value := value.map some } closed (membersToDocuments rest) := by
  refine readMembers?_member rfl (fun text => { p with value := text.map some }) _ ?_ ?_ closed rest
  · rw [Option.map_none, ← hp]
  · intro text _
    exact Parts.fill?_value hp text

theorem readMembers?_left
    {p : Parts} (hp : p.left = none)
    {left : Option Node} (hread : ∀ n, left = some n → read? none n.toValue.toDocument = some n)
    (closed : Bool) (rest : List (String × Value)) :
    readMembers? none p closed (membersToDocuments (member "left" (left.map toValue) ++ rest)) =
      readMembers? none { p with left := left.map some } closed (membersToDocuments rest) := by
  refine readMembers?_member rfl (fun n => { p with left := n.map some }) _ ?_ ?_ closed rest
  · rw [Option.map_none, ← hp]
  · intro n hn
    exact Parts.fill?_left hp (hread n hn)

theorem readMembers?_right
    {p : Parts} (hp : p.right = none)
    {right : Option Node} (hread : ∀ n, right = some n → read? none n.toValue.toDocument = some n)
    (closed : Bool) (rest : List (String × Value)) :
    readMembers? none p closed (membersToDocuments (member "right" (right.map toValue) ++ rest)) =
      readMembers? none { p with right := right.map some } closed (membersToDocuments rest) := by
  refine readMembers?_member rfl (fun n => { p with right := n.map some }) _ ?_ ?_ closed rest
  · rw [Option.map_none, ← hp]
  · intro n hn
    exact Parts.fill?_right hp (hread n hn)

/-- Every node is read back from its value. -/
theorem read?_toValue (n : Node) : read? none n.toValue.toDocument = some n := by
  match n with
  | mk kind connective value left right =>
      have hleft (m : Node) (h : left = some m) : read? none m.toValue.toDocument = some m :=
        read?_toValue m
      have hright (m : Node) (h : right = some m) : read? none m.toValue.toDocument = some m :=
        read?_toValue m
      rw [toValue_mk, Value.toDocument, read?]
      simp only [enter?, List.flatten_cons, List.flatten_nil]
      rw [readMembers?_kind, readMembers?_connective rfl, readMembers?_value rfl,
        readMembers?_left rfl hleft, readMembers?_right rfl hright]
      cases connective <;> cases value <;> cases left <;> cases right <;> rfl

/-! ## Keys and nesting -/

theorem membersDistinct_append
    {first second : List (String × Value)} :
    MembersDistinct (first ++ second) ↔ MembersDistinct first ∧ MembersDistinct second := by
  induction first with
  | nil => exact ⟨fun h => ⟨trivial, h⟩, fun h => h.2⟩
  | cons m first ih =>
      constructor
      · rintro ⟨hm, hmore⟩
        exact ⟨⟨hm, (ih.mp hmore).1⟩, (ih.mp hmore).2⟩
      · rintro ⟨⟨hm, hfirst⟩, hsecond⟩
        exact ⟨hm, ih.mpr ⟨hfirst, hsecond⟩⟩

theorem membersDistinct_member
    {α : Type} {key : String} {content : Option α} {write : α → Value}
    (h : ∀ a, content = some a → (write a).Distinct) :
    MembersDistinct (member key (content.map write)) := by
  cases content with
  | none => trivial
  | some a => exact ⟨h a rfl, trivial⟩

theorem distinct_toValue (n : Node) : n.toValue.Distinct := by
  match n with
  | mk kind connective value left right =>
      have hleft (m : Node) (h : left = some m) : m.toValue.Distinct := distinct_toValue m
      have hright (m : Node) (h : right = some m) : m.toValue.Distinct := distinct_toValue m
      rw [toValue_mk]
      constructor
      · cases connective <;> cases value <;> cases left <;> cases right <;> simp [member]
      · simp only [List.flatten_cons, List.flatten_nil, membersDistinct_append]
        exact ⟨membersDistinct_member fun _ _ => trivial, membersDistinct_member fun _ _ => trivial,
          membersDistinct_member fun _ _ => trivial, membersDistinct_member hleft,
          membersDistinct_member hright, trivial⟩

/-! ## Formulas -/

theorem levels_ofFormula (f : Formula) : (ofFormula f).toValue.levels = f.depth := by
  induction f with
  | leaf c =>
      rw [Formula.depth_leaf]
      rfl
  | join k left right ihl ihr =>
      have hobject : (ofFormula (.join k left right)).toValue =
          .object [("type", .text Kind.inner.name), ("operator", .text k.word),
            ("left", (ofFormula left).toValue), ("right", (ofFormula right).toValue)] := rfl
      rw [hobject, Formula.depth_join, ← ihl, ← ihr]
      simp [Value.levels, Value.membersLevels]

/-- A formula is put together again from its node, on every level that leaves room for it. -/
theorem toFormulaAt_ofFormula
    {f : Formula} (hf : f.Writable)
    {level : Nat} (hlevel : f.depth + level ≤ Formula.maxDepth + 1) :
    (ofFormula f).toFormulaAt level = .ok f := by
  induction f generalizing level with
  | leaf c =>
      rw [Formula.depth_leaf] at hlevel
      have hshallow : ¬ Formula.maxDepth < level := by omega
      rw [ofFormula, toFormulaAt, if_neg hshallow]
      simp only [Option.isSome_none, Bool.or_self, Bool.false_eq_true, if_false]
      rw [Condition.ofText_shown (Formula.writable_leaf.mp hf)]
  | join k left right ihl ihr =>
      rw [Formula.depth_join] at hlevel
      obtain ⟨hl, hr⟩ := Formula.writable_join.mp hf
      have hshallow : ¬ Formula.maxDepth < level := by omega
      have hleft : (ofFormula left).toFormulaAt (level + 1) = .ok left := ihl hl (by omega)
      have hright : (ofFormula right).toFormulaAt (level + 1) = .ok right := ihr hr (by omega)
      rw [ofFormula, toFormulaAt, if_neg hshallow]
      simp only [hleft, hright]

end Node
end Stored

namespace Formula

open Json Stored

theorem toFormula_ofFormula
    {f : Formula}
    (hf : f.Writable)
    (hdepth : f.depth ≤ maxDepth) :
    (Node.ofFormula f).toFormula = .ok f :=
  Node.toFormulaAt_ofFormula hf (by omega)

/-- The value of a formula nests as deeply as the formula. -/
theorem nesting_toValue (f : Formula) : f.toValue.nesting = f.depth := by
  rw [toValue, Value.nesting_eq_levels, Node.levels_ofFormula]

theorem distinct_toValue (f : Formula) : f.toValue.Distinct :=
  (Node.ofFormula f).distinct_toValue

theorem checkNesting_eq_ok_iff
    {levels limit : Nat} :
    checkNesting levels limit = .ok () ↔ levels ≤ limit := by
  rw [checkNesting]
  split
  · rename_i h
    exact iff_of_false (by simp) (Nat.not_le.mpr h)
  · rename_i h
    exact iff_of_true rfl (Nat.not_lt.mp h)

theorem checkNesting_eq_ok
    {levels limit : Nat}
    (h : levels ≤ limit) :
    checkNesting levels limit = .ok () :=
  checkNesting_eq_ok_iff.mpr h

/-- The text of a value nests as deeply as the value and spells the same document. -/
theorem ofJson_write (v : Value) :
    ofJson v.write = ofValue v := by
  rw [ofJson, ofValue, Node.ofJson?, Value.textNesting_write, Value.ofText_write,
    ← Node.read?_toDocument]

theorem ofValue_toValue
    {f : Formula}
    (hf : f.Writable)
    (hdepth : f.depth ≤ maxDepth) :
    ofValue f.toValue = .ok f := by
  have hnesting : checkNesting f.toValue.nesting maxDepth = .ok () := by
    refine checkNesting_eq_ok ?_
    rw [nesting_toValue]
    exact hdepth
  have hnode : Node.read? none f.toValue.toDocument = some (Node.ofFormula f) :=
    Node.read?_toValue _
  rw [ofValue, hnesting, ← Node.read?_toDocument, hnode]
  exact toFormula_ofFormula hf hdepth

theorem ofJson_toJson
    {f : Formula}
    (hf : f.Writable)
    (hdepth : f.depth ≤ maxDepth) :
    ofJson f.toJson = .ok f := by
  rw [toJson, ofJson_write]
  exact ofValue_toValue hf hdepth

theorem ofValue_sorted
    {v : Value}
    (h : v.Distinct) :
    ofValue v.sorted = ofValue v := by
  rw [ofValue, ofValue, Value.nesting_sorted v h, ← Node.read?_toDocument, ← Node.read?_toDocument,
    Node.read?_sorted v h]

/-- **Text and value.**  From its text and as it is, a value is loaded as the same formula or
refused with the same fault. -/
theorem loaders_agree (v : Value) :
    (∃ f, ofJson v.write = .ok f ∧ ofValue v = .ok f) ∨
      ∃ fault, ofJson v.write = .error fault ∧ ofValue v = .error fault := by
  rw [ofJson_write]
  cases ofValue v with
  | ok f => exact .inl ⟨f, rfl, rfl⟩
  | error fault => exact .inr ⟨fault, rfl, rfl⟩

end Formula

namespace NamedRule

open Json Stored

theorem textNesting_toJson (r : NamedRule) :
    textNesting r.toJson = r.formula.depth + 1 := by
  rw [toJson, Value.textNesting_write, Value.nesting_eq_levels, ← Formula.nesting_toValue,
    Value.nesting_eq_levels]
  simp [toValue, Value.levels, Value.membersLevels]

theorem ofJson_toJson
    {r : NamedRule}
    (hf : r.formula.Writable)
    (hdepth : r.formula.depth ≤ Formula.maxDepth) :
    ofJson r.toJson = .ok r := by
  have hnesting : checkNesting (textNesting r.toJson) (Formula.maxDepth + 1) = .ok () := by
    refine Formula.checkNesting_eq_ok ?_
    rw [textNesting_toJson]
    omega
  have hformula : readFormula true none r.formula.toValue.toDocument = .ok r.formula := by
    have hnode : Node.read? none r.formula.toValue.toDocument =
        some (Node.ofFormula r.formula) :=
      Node.read?_toValue _
    rw [readFormula, hnode]
    simp only [Formula.toFormula_ofFormula hf hdepth]
  have hread : read none r.toValue.toDocument = .ok r := by
    simp [read, enter?, toValue, Value.toDocument, Value.membersToDocuments, readMembers,
      Document.text?, hformula, ofParts]
  rw [ofJson, hnesting, toJson, ofJsonWithin, Value.ofText_write]
  simp only [hread]
  rfl

end NamedRule

namespace Formula

/-- **Stored and loaded.**  A formula within the limit whose conditions pass the check is loaded from
its text, from its value and from its value with sorted members as itself, and so is a rule with any
name and this formula. -/
theorem load_stored
    {f : Formula}
    (hdepth : f.depth ≤ maxDepth)
    (hconditions : ∀ c ∈ f.conditions, c.check = .ok c)
    (name : String) :
    ofJson f.toJson = .ok f ∧
      ofValue f.toValue = .ok f ∧
      ofValue f.toValue.sorted = .ok f ∧
      NamedRule.ofJson (NamedRule.mk name f).toJson = .ok ⟨name, f⟩ := by
  have hf := writable_of_check hconditions
  have hvalue := ofValue_toValue hf hdepth
  refine ⟨ofJson_toJson hf hdepth, hvalue, ?_, NamedRule.ofJson_toJson hf hdepth⟩
  rw [ofValue_sorted (distinct_toValue f)]
  exact hvalue

/-- Characters that have to be escaped in an operand and in the name, and negative zero. -/
theorem load_stored_escaped :
    ofJson (join .or (leaf ⟨"AND", .equal, .text "]\n\""⟩)
          (leaf ⟨"b", .below, .number ⟨0x8000000000000000⟩⟩)).toJson =
        .ok (join .or (leaf ⟨"AND", .equal, .text "]\n\""⟩)
          (leaf ⟨"b", .below, .number ⟨0x8000000000000000⟩⟩)) ∧
      NamedRule.ofJson (NamedRule.mk "\"\\" (join .or (leaf ⟨"AND", .equal, .text "]\n\""⟩)
          (leaf ⟨"b", .below, .number ⟨0x8000000000000000⟩⟩))).toJson =
        .ok ⟨"\"\\", join .or (leaf ⟨"AND", .equal, .text "]\n\""⟩)
          (leaf ⟨"b", .below, .number ⟨0x8000000000000000⟩⟩)⟩ := by
  have hdepth : (join .or (leaf ⟨"AND", .equal, .text "]\n\""⟩)
      (leaf ⟨"b", .below, .number ⟨0x8000000000000000⟩⟩)).depth ≤ maxDepth := by
    simp [depth_join, depth_leaf, maxDepth]
  have hconditions : ∀ c ∈ (join .or (leaf ⟨"AND", .equal, .text "]\n\""⟩)
      (leaf ⟨"b", .below, .number ⟨0x8000000000000000⟩⟩)).conditions, c.check = .ok c := by
    simp only [conditions_join, conditions_leaf, List.cons_append, List.nil_append,
      List.forall_mem_cons, List.not_mem_nil, false_implies, implies_true, and_true]
    decide +kernel
  obtain ⟨hjson, -, -, hnamed⟩ := load_stored hdepth hconditions "\"\\"
  exact ⟨hjson, hnamed⟩

end Formula
end Eligibility
