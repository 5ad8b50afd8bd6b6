import Eligibility.Formula.Infix

/-!
# The grammar of rules

A rule is an expression: terms with `OR` between them.  A term is operands with `AND` between them,
and an operand is a condition or an expression in parentheses.  Both kinds of chain are one
definition here, with the connective as its parameter.

**Trees.**  `Spells p ts f` says that the tokens `ts` are a phrase `p` and that the grammar assigns
the formula `f` to them: a chain leans left, and parentheses leave no node.

**Results.**
* `Spells.weaken`: a tighter phrase is also a looser one, with the same formula;
* `spells_chain_iff`: a chain is one side followed by any number of further sides, each after the
  connective, and its formula folds them from the left.
-/

namespace Eligibility

/-- The phrases of the grammar. -/
inductive Phrase
  /-- A condition, or an expression in parentheses. -/
  | operand
  /-- Phrases with one connective between them. -/
  | chain (connective : Connective)
deriving DecidableEq, Inhabited, Repr

namespace Phrase

/-- Terms with `OR` between them. -/
def expression : Phrase :=
  chain .or

/-- Operands with `AND` between them. -/
def term : Phrase :=
  chain .and

/-- The phrases that stand on the two sides of a connective. -/
def side : Connective → Phrase
  | .or => term
  | .and => operand

/-- How tightly a phrase holds together; connectives of a smaller precedence cannot part it. -/
def strength : Phrase → Nat
  | operand => 3
  | chain k => k.precedence

theorem precedence_lt_strength_side (k : Connective) :
    k.precedence < (side k).strength := by
  cases k <;> decide

theorem strength_expression_le (p : Phrase) :
    expression.strength ≤ p.strength := by
  cases p with
  | operand => decide
  | chain k => cases k <;> decide

theorem strength_le_operand (p : Phrase) :
    p.strength ≤ operand.strength := by
  cases p with
  | operand => decide
  | chain k => cases k <;> decide

/-- What a connective cannot part is as tight as the sides of the connective. -/
theorem strength_side_le
    {p : Phrase} {k : Connective}
    (h : k.precedence < p.strength) :
    (side k).strength ≤ p.strength := by
  cases p with
  | operand => exact strength_le_operand _
  | chain j =>
      revert h
      cases j <;> cases k <;> decide

end Phrase

open Formula Phrase

/-- The tokens are a phrase to which the grammar assigns the formula. -/
inductive Spells : Phrase → List Token → Formula → Prop
  | condition {text : String} {c : Condition} (h : Condition.ofText text = .ok c) :
      Spells operand [.condition text] (leaf c)
  | group {ts : List Token} {f : Formula} (h : Spells expression ts f) :
      Spells operand (.opening :: (ts ++ [.closing])) f
  | single {k : Connective} {ts : List Token} {f : Formula} (h : Spells (side k) ts f) :
      Spells (chain k) ts f
  | more {k : Connective} {ts us : List Token} {f g : Formula}
      (left : Spells (chain k) ts f) (right : Spells (side k) us g) :
      Spells (chain k) (ts ++ .connective k :: us) (join k f g)

namespace Spells

/-- A tighter phrase is also a looser one, with the same formula. -/
theorem weaken
    {p q : Phrase} {ts : List Token} {f : Formula}
    (h : Spells p ts f)
    (hqp : q.strength ≤ p.strength) :
    Spells q ts f := by
  cases q with
  | operand =>
      cases p with
      | operand => exact h
      | chain k => cases k <;> simp [strength, Connective.precedence] at hqp
  | chain j =>
      cases p with
      | operand =>
          cases j with
          | and => exact single h
          | or => exact single (single (k := .and) h)
      | chain k =>
          cases j with
          | and =>
              cases k with
              | and => exact h
              | or => simp [strength, Connective.precedence] at hqp
          | or =>
              cases k with
              | and => exact single h
              | or => exact h

/-- A phrase has at least one token. -/
theorem ne_nil
    {p : Phrase} {ts : List Token} {f : Formula}
    (h : Spells p ts f) :
    ts ≠ [] := by
  induction h with
  | condition h => simp
  | group h ih => simp
  | single h ih => exact ih
  | more left right ihl ihr => simp

/-- A chain goes on with further sides, each after the connective. -/
theorem extend
    {k : Connective} {us : List Token} {g : Formula}
    (h : Spells (chain k) us g) :
    ∀ {more : List (List Token × Formula)},
      (∀ m ∈ more, Spells (side k) m.1 m.2) →
      Spells (chain k) (us ++ more.flatMap fun m => .connective k :: m.1)
        (more.foldl (fun joined m => join k joined m.2) g) := by
  intro more hmore
  induction more generalizing us g with
  | nil => simpa using h
  | cons m more ih =>
      have hm := hmore m (by simp)
      have hrest : ∀ n ∈ more, Spells (side k) n.1 n.2 := fun n hn =>
        hmore n (List.mem_cons_of_mem _ hn)
      simpa using ih (Spells.more h hm) hrest

end Spells

theorem spells_chain_iff
    {k : Connective} {ts : List Token} {f : Formula} :
    Spells (chain k) ts f ↔
      ∃ (first : List Token × Formula) (more : List (List Token × Formula)),
        Spells (side k) first.1 first.2 ∧
        (∀ m ∈ more, Spells (side k) m.1 m.2) ∧
        ts = first.1 ++ more.flatMap (fun m => .connective k :: m.1) ∧
        f = more.foldl (fun joined m => join k joined m.2) first.2 := by
  constructor
  · intro h
    generalize hp : chain k = p at h
    induction h with
    | condition h => cases hp
    | group h ih => cases hp
    | @single j us g h ih =>
        cases hp
        exact ⟨(us, g), [], h, by simp, by simp, rfl⟩
    | @more j us vs g g' left right ihl ihr =>
        cases hp
        obtain ⟨first, more, hfirst, hmore, hus, hg⟩ := ihl rfl
        refine ⟨first, more ++ [(vs, g')], hfirst, ?_, ?_, ?_⟩
        · intro m hm
          rcases List.mem_append.mp hm with hm | hm
          · exact hmore m hm
          · rw [List.mem_singleton.mp hm]
            exact right
        · simp [hus]
        · simp [hg]
  · rintro ⟨first, more, hfirst, hmore, rfl, rfl⟩
    exact Spells.extend (Spells.single hfirst) hmore

end Eligibility
