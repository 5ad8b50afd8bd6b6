import Eligibility.Proofs.Formula.Storable
import Eligibility.Proofs.Stored.RoundTrip

/-!
# Storing again what has been loaded

A node that is loaded as a formula and stored again comes back with the same kinds, connectives and
children, and with the texts of its conditions in the form in which conditions are shown.  What a kind
has no use for is lost, if it is filled in: children of a leaf are refused, but the connective of a leaf
and the text of an inner node are passed over.

**Results.**
* `outline_ofFormula`: what is stored again, up to the texts;
* `stripped_outline_iff`: the nodes that lose nothing;
* `toFormulaAt_stripped`: what is lost does not matter when a node is loaded;
* `outline_of_reloaded`: what storing a loaded node again keeps.
-/

namespace Eligibility
namespace Stored
namespace Node

/-- The node with its texts blanked: what is left is its kind, its connective, which of its other
parts are filled in, and the same of its children. -/
def outline : Node → Node
  | mk kind connective value left right =>
    mk kind connective (value.map fun _ => "")
      (match left with | some n => some n.outline | none => none)
      (match right with | some n => some n.outline | none => none)
termination_by structural n => n

/-- The node without the connectives of leaves and the texts of inner nodes. -/
def stripped : Node → Node
  | mk .leaf _ value left right => mk .leaf none value left right
  | mk .inner connective _ left right =>
    mk .inner connective none
      (match left with | some n => some n.stripped | none => none)
      (match right with | some n => some n.stripped | none => none)
termination_by structural n => n

/-- The node is no leaf with a connective and no inner node with a text. -/
def Tidy : Node → Prop
  | mk .leaf connective _ _ _ => connective = none
  | mk .inner _ value _ _ => value = none

theorem represents_of_toFormula
    {n : Node} {f : Formula}
    (h : n.toFormula = .ok f) :
    n.Represents f := by
  rcases toFormulaAt_cases 1 n with ⟨g, hok, hrepresents, -⟩ | ⟨fault, herror, -⟩
  · obtain rfl := Except.ok.inj (hok.symm.trans h)
    exact hrepresents
  · exact absurd (herror.symm.trans h) (by simp)

/-! ## What is stored again -/

/-- What is stored again is, up to the texts, the node without what its kind does not use. -/
theorem outline_ofFormula
    {n : Node} {f : Formula}
    (h : n.Represents f) :
    (ofFormula f).outline = n.stripped.outline := by
  induction h with
  | leaf hread => rfl
  | inner hl hr ihl ihr => simp only [ofFormula, stripped, outline, ihl, ihr, Option.map_none]

/-- Nothing is lost exactly if every node that is looked at is tidy. -/
theorem stripped_outline_iff
    {n : Node} {f : Formula}
    (h : n.Represents f)
    (level : Nat) :
    n.stripped.outline = n.outline ↔ ∀ p ∈ n.places level, p.2.Tidy := by
  induction h generalizing level with
  | leaf hread => simp [stripped, outline, places, Tidy, eq_comm]
  | @inner k value left right f g hl hr ihl ihr =>
      have hvalue : none = value.map (fun _ => "") ↔ value = none := by cases value <;> simp
      rw [places_inner, List.forall_mem_cons, List.forall_mem_append, ← ihl (level + 1),
        ← ihr (level + 1)]
      simp [stripped, outline, Tidy, hvalue]

/-! ## What is lost -/

/-- Neither the connective of a leaf nor the text of an inner node is looked at. -/
theorem toFormulaAt_stripped
    (level : Nat) (n : Node) :
    n.stripped.toFormulaAt level = n.toFormulaAt level := by
  match n with
  | mk .leaf connective value left right => rfl
  | mk .inner connective value none none => rfl
  | mk .inner connective value none (some right) => rfl
  | mk .inner connective value (some left) none => rfl
  | mk .inner connective value (some left) (some right) =>
      have hleft := toFormulaAt_stripped (level + 1) left
      have hright := toFormulaAt_stripped (level + 1) right
      simp only [stripped, toFormulaAt, hleft, hright]

/-- **Storing again.**  A node that is loaded comes back as it was, up to the form of its texts and
without the connectives of its leaves and the texts of its inner nodes, so as it was exactly if it has
none of these.  They make no difference to what is loaded, and what is stored again is loaded as the
same formula. -/
theorem outline_of_reloaded
    {n : Node} {f : Formula}
    (h : n.toFormula = .ok f) :
    (ofFormula f).outline = n.stripped.outline ∧
      ((ofFormula f).outline = n.outline ↔ ∀ p ∈ n.places 1, p.2.Tidy) ∧
      n.stripped.toFormula = .ok f ∧
      (ofFormula f).toFormula = .ok f := by
  have hrepresents := represents_of_toFormula h
  have houtline := outline_ofFormula hrepresents
  refine ⟨houtline, ?_, ?_, ?_⟩
  · rw [houtline]
    exact stripped_outline_iff hrepresents 1
  · rw [toFormula, toFormulaAt_stripped]
    exact h
  · obtain ⟨hdepth, hwritable⟩ := Formula.storable_iff.mp (Formula.storable_of_toFormula h)
    exact Formula.toFormula_ofFormula hwritable hdepth

/-- An inner node with a text, over a leaf with a connective. -/
theorem outline_of_reloaded_untidy :
    ∃ n f, n = mk .inner (some .or) (some "note")
        (some (mk .leaf (some .and) (some "a='x'") none none))
        (some (mk .leaf none (some " b < 'y' ") none none)) ∧
      n.toFormula = .ok f ∧
      (ofFormula f).outline = n.stripped.outline ∧
      (ofFormula f).outline ≠ n.outline ∧
      (ofFormula f).toFormula = .ok f := by
  have hload : toFormula (mk .inner (some .or) (some "note")
      (some (mk .leaf (some .and) (some "a='x'") none none))
      (some (mk .leaf none (some " b < 'y' ") none none))) =
      .ok (.join .or (.leaf ⟨"a", .equal, .text "x"⟩) (.leaf ⟨"b", .below, .text "y"⟩)) := by
    decide +kernel
  obtain ⟨houtline, hkept, -, hagain⟩ := outline_of_reloaded hload
  refine ⟨_, _, rfl, hload, houtline, ?_, hagain⟩
  intro hsame
  exact absurd (hkept.mp hsame _ List.mem_cons_self) (by simp [Tidy])

/-- A leaf with a connective and an inner node with a text are loaded, and come back without. -/
theorem outline_lost :
    (toFormula (mk .leaf (some .and) (some "a = 'x'") none none) =
        .ok (.leaf ⟨"a", .equal, .text "x"⟩) ∧
      (ofFormula (.leaf ⟨"a", .equal, .text "x"⟩)).outline ≠
        (mk .leaf (some .and) (some "a = 'x'") none none).outline) ∧
    (toFormula (mk .inner (some .or) (some "note")
        (some (mk .leaf none (some "a = 'x'") none none))
        (some (mk .leaf none (some "b < 'y'") none none))) =
        .ok (.join .or (.leaf ⟨"a", .equal, .text "x"⟩) (.leaf ⟨"b", .below, .text "y"⟩)) ∧
      (ofFormula (.join .or (.leaf ⟨"a", .equal, .text "x"⟩)
          (.leaf ⟨"b", .below, .text "y"⟩))).outline ≠
        (mk .inner (some .or) (some "note")
          (some (mk .leaf none (some "a = 'x'") none none))
          (some (mk .leaf none (some "b < 'y'") none none))).outline) := by
  refine ⟨⟨by decide +kernel, ?_⟩, by decide +kernel, ?_⟩
  · simp [ofFormula, outline]
  · simp [ofFormula, outline]

end Node
end Stored
end Eligibility
