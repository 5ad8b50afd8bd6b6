import Eligibility.Proofs.Engine.Session
import Eligibility.Proofs.Formula.Conjunction

/-!
# Formulas that are handed out

Formulas can be put together freely, but those that come out of the library have been read from a
rule, from a document or from a node, or are what an engine has read and combined.  All of them can
be stored and written as rule texts.

**Results.**
* `storable_of_parse`, `storable_of_combine`: what a sound engine reads and combines;
* `storable_of_handedOut`: what is handed out can be stored.
-/

namespace Eligibility

theorem Formula.storable_of_mapM_ofText
    {strict : Bool} {rules : List String} {fs : List Formula}
    (h : rules.mapM (ofText strict) = .ok fs) :
    ∀ f ∈ fs, f.Storable := by
  induction rules generalizing fs with
  | nil =>
      cases h
      simp
  | cons rule rules ih =>
      rw [List.mapM_cons] at h
      cases hread : ofText strict rule with
      | error fault =>
          rw [hread] at h
          cases h
      | ok f =>
          cases hall : rules.mapM (ofText strict) with
          | error fault =>
              rw [hread, hall] at h
              cases h
          | ok gs =>
              rw [hread, hall] at h
              cases h
              exact List.forall_mem_cons.mpr ⟨storable_of_ofText hread, ih hall⟩

namespace Engine

/-- A sound engine hands out what reading gives, which is storable. -/
theorem storable_of_parse
    {e : Engine} {rule : String} {f : Formula}
    (he : e.Sound)
    (h : (e.parse rule).1 = .ok f) :
    f.Storable := by
  rw [parse_eq he] at h
  exact Formula.storable_of_ofText h

theorem storable_of_compile
    {e : Engine} {name rule : String} {r : NamedRule}
    (he : e.Sound)
    (h : (e.compile name rule).1 = .ok r) :
    r.formula.Storable := by
  simp only [compile] at h
  cases hparse : (e.parse rule).1 with
  | error fault => simp [hparse, Except.map] at h
  | ok f =>
      simp only [hparse, Except.map, Except.ok.injEq] at h
      rw [← h]
      exact storable_of_parse he hparse

/-- Rules that are read one by one are storable, and so is their conjunction. -/
theorem storable_of_combine
    {e : Engine} {rules : List String} {f : Formula}
    (he : e.Sound)
    (h : (e.combine rules).1 = .ok f) :
    f.Storable := by
  simp only [combine, parseAll_eq he] at h
  cases hall : rules.mapM (Formula.ofText e.settings.strict) with
  | error fault => simp [hall, Except.bind] at h
  | ok fs =>
      simp only [hall, Except.bind] at h
      exact Formula.storable_of_conjunction (Formula.storable_of_mapM_ofText hall) h

end Engine

namespace Formula

/-- How a formula can come out of the library. -/
inductive HandedOut : Formula → Prop
  /-- Read from a rule text, whether stray text is refused or dropped. -/
  | rule {strict : Bool} {s : String} {f : Formula} (h : ofText strict s = .ok f) : HandedOut f
  /-- Read from tokens. -/
  | tokens {ts : List Token} {f : Formula} (h : ofTokens ts = .ok f) : HandedOut f
  /-- Loaded from a text. -/
  | json {s : String} {f : Formula} (h : ofJson s = .ok f) : HandedOut f
  /-- Loaded from a value. -/
  | value {v : Json.Value} {f : Formula} (h : ofValue v = .ok f) : HandedOut f
  /-- Loaded from a text within an allowance. -/
  | jsonWithin {allowance : Json.Allowance} {s : String} {f : Formula}
      (h : ofJsonWithin allowance s = .ok f) : HandedOut f
  /-- Read as part of a document. -/
  | document {inside : Bool} {allowance : Json.Allowance} {d : Json.Document} {f : Formula}
      (h : Stored.readFormula inside allowance d = .ok f) : HandedOut f
  /-- Put together from a node. -/
  | node {n : Stored.Node} {f : Formula} (h : n.toFormula = .ok f) : HandedOut f
  /-- Loaded under a name. -/
  | named {s : String} {r : NamedRule} (h : NamedRule.ofJson s = .ok r) : HandedOut r.formula
  /-- Read by an engine, whatever it was asked before. -/
  | parse {s : Settings} {earlier : List Request} {rule : String} {f : Formula}
      (h : (((Engine.new s).performAll earlier).2.parse rule).1 = .ok f) : HandedOut f
  /-- Read and named by an engine, whatever it was asked before. -/
  | compile {s : Settings} {earlier : List Request} {name rule : String} {r : NamedRule}
      (h : (((Engine.new s).performAll earlier).2.compile name rule).1 = .ok r) :
      HandedOut r.formula
  /-- Combined by an engine, whatever it was asked before. -/
  | combine {s : Settings} {earlier : List Request} {rules : List String} {f : Formula}
      (h : (((Engine.new s).performAll earlier).2.combine rules).1 = .ok f) : HandedOut f

/-- **Formulas that are handed out.**  They are no deeper than the limit, and each of their
conditions passes the check. -/
theorem storable_of_handedOut
    {f : Formula}
    (h : HandedOut f) :
    f.depth ≤ maxDepth ∧ ∀ c ∈ f.conditions, c.check = .ok c := by
  have hsound (s : Settings) (earlier : List Request) :
      ((Engine.new s).performAll earlier).2.Sound :=
    (Engine.sound_new s).performAll earlier
  have hstorable : f.Storable := by
    cases h with
    | rule h => exact storable_of_ofText h
    | tokens h => exact storable_of_ofTokens h
    | json h => exact storable_of_ofJson h
    | value h => exact storable_of_ofValue h
    | jsonWithin h => exact storable_of_ofJsonWithin h
    | document h => exact storable_of_readFormula h
    | node h => exact storable_of_toFormula h
    | named h => exact NamedRule.storable_of_ofJson h
    | parse h => exact Engine.storable_of_parse (hsound _ _) h
    | compile h => exact Engine.storable_of_compile (hsound _ _) h
    | combine h => exact Engine.storable_of_combine (hsound _ _) h
  exact ⟨hstorable.depth_le, hstorable.check_eq_ok⟩

/-- One of the combined rules has been kept, the other is read. -/
theorem storable_of_handedOut_combined :
    ∃ f : Formula,
      f = join .and (leaf ⟨"a", .equal, .text ")"⟩)
        (join .or (leaf ⟨"b", .equal, .text "y"⟩)
          (leaf ⟨"c", .below, .number ⟨0xC004000000000000⟩⟩)) ∧
      HandedOut f ∧ f.depth ≤ maxDepth ∧ ∀ c ∈ f.conditions, c.check = .ok c := by
  have h : (((Engine.new { capacity := 1 }).performAll
        [.parse "b = 'y' OR c < -2.5", .parse "c = 'z'"]).2.combine
          ["a = ')'", "b = 'y' OR c < -2.5"]).1 =
      .ok (join .and (leaf ⟨"a", .equal, .text ")"⟩)
        (join .or (leaf ⟨"b", .equal, .text "y"⟩)
          (leaf ⟨"c", .below, .number ⟨0xC004000000000000⟩⟩))) := by
    decide +kernel
  exact ⟨_, rfl, .combine h, storable_of_handedOut (.combine h)⟩

end Formula
end Eligibility
