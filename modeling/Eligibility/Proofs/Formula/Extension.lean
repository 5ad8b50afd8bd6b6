import Eligibility.Proofs.Formula.Evaluation

/-!
# Verdicts on extended records

A record may become known bit by bit: an extended record keeps every value and gives further fields
one.  A condition that had its field keeps its verdict, and a condition that lacked it was either
skipped or made the whole verdict a fault.  So a verdict that was a truth value stays the same,
whatever the conditions that were skipped say of the extended record.

**Results.**
* `Record.extends_insert`: a value for a field that had none extends a record;
* `verdict_of_conditions`: a truth value is kept where the conditions keep theirs;
* `verdict_on_extension`: what a short-circuit verdict says of all extended records.
-/

namespace Eligibility
namespace Record

/-- The record has every value of another one, and maybe values of further fields. -/
def Extends (s r : Record) : Prop :=
  ∀ name value, r.find? name = some value → s.find? name = some value

theorem extends_insert
    {r : Record} {name : String}
    (h : r.contains name = false)
    (value : FieldValue) :
    Extends (r.insert name value) r := by
  intro other known hother
  have hne : other ≠ name := by
    rintro rfl
    simp [Keyed.contains, hother] at h
  rw [Keyed.find?_insert, if_neg hne]
  exact hother

theorem Extends.trans
    {r s t : Record}
    (hst : Extends t s)
    (hrs : Extends s r) :
    Extends t r :=
  fun name value h => hst name value (hrs name value h)

end Record

/-- A condition that has its field in a record has the same verdict on all extensions. -/
theorem Condition.verdict_of_extends
    {r s : Record} {c : Condition} {v : Bool}
    (h : Record.Extends s r)
    (hv : c.verdict r = .ok v) :
    c.verdict s = .ok v := by
  unfold verdict at *
  cases hfound : r.find? c.field with
  | none => simp [hfound] at hv
  | some value =>
      rw [hfound] at hv
      rw [h c.field value hfound]
      exact hv

namespace Formula

/-- Under either strategy a verdict that is a truth value comes from conditions that have verdicts.
Whatever the others say, it is the same where these have the same verdicts. -/
theorem verdict_of_conditions
    {strategy : Strategy} {r s : Record} {f : Formula} {v : Bool}
    (h : ∀ c ∈ f.conditions, ∀ w, c.verdict r = .ok w → c.verdict s = .ok w)
    (hv : f.verdict strategy r = .ok v) :
    f.verdict strategy s = .ok v := by
  induction f generalizing v with
  | leaf c =>
      rw [verdict_leaf] at *
      exact h c (by simp [conditions_leaf]) v hv
  | join k left right ihl ihr =>
      simp only [conditions_join, List.mem_append] at h
      rw [verdict_join_eq_ok_iff] at *
      obtain ⟨l, hl, hsettled⟩ := hv
      refine ⟨l, ihl (fun c hc => h c (.inl hc)) hl, ?_⟩
      rcases hsettled with hdecided | ⟨hopen, w, hw, happly⟩
      · -- the right side is skipped on both records
        exact .inl hdecided
      · exact .inr ⟨hopen, w, ihr (fun c hc => h c (.inr hc)) hw, happly⟩

/-- **Learning more.**  A short-circuit verdict that is a truth value is the same on every extension
of the record, and it is also the eager verdict there once all fields are known. -/
theorem verdict_on_extension
    {f : Formula} {r s : Record} {v : Bool}
    (h : Record.Extends s r)
    (hv : f.verdict .shortCircuit r = .ok v) :
    f.verdict .shortCircuit s = .ok v ∧
      ((∀ name ∈ f.fields, s.contains name = true) → f.verdict .eager s = .ok v) := by
  have hshort : f.verdict .shortCircuit s = .ok v :=
    verdict_of_conditions (fun c _ w => Condition.verdict_of_extends h) hv
  refine ⟨hshort, fun hfields => ?_⟩
  have heager := (verdict_eager_of_fields hfields).2
  have hagree := verdict_shortCircuit_of_eager heager
  rw [hshort] at hagree
  rw [heager, hagree]

/-- Two conditions are skipped for want of their fields, and neither holds once they are known. -/
theorem verdict_on_extension_skipped_conditions :
    ∃ (f : Formula) (r s : Record),
      f = join .and
        (join .or (leaf ⟨"a", .equal, .text "x"⟩) (leaf ⟨"b", .equal, .text "x"⟩))
        (join .or (leaf ⟨"c", .equal, .text "x"⟩) (leaf ⟨"d", .equal, .text "x"⟩)) ∧
      r = Keyed.ofList [("a", .text "x"), ("c", .text "x")] ∧
      s = (r.insert "b" (.text "")).insert "d" (.text "") ∧
      Record.Extends s r ∧
      f.verdict .eager r = .error (.unknownField "b") ∧
      f.verdict .shortCircuit r = .ok true ∧
      f.verdict .shortCircuit s = .ok true ∧
      (∀ name ∈ f.fields, s.contains name = true) ∧
      f.verdict .eager s = .ok true := by
  obtain ⟨f, hf⟩ : ∃ f, f = join .and
      (join .or (leaf ⟨"a", .equal, .text "x"⟩) (leaf ⟨"b", .equal, .text "x"⟩))
      (join .or (leaf ⟨"c", .equal, .text "x"⟩) (leaf ⟨"d", .equal, .text "x"⟩)) := ⟨_, rfl⟩
  obtain ⟨r, hr⟩ : ∃ r : Record, r = Keyed.ofList [("a", .text "x"), ("c", .text "x")] := ⟨_, rfl⟩
  obtain ⟨s, hs⟩ : ∃ s : Record, s = (r.insert "b" (.text "")).insert "d" (.text "") := ⟨_, rfl⟩
  have hextends : Record.Extends s r := by
    rw [hs]
    refine Record.Extends.trans (Record.extends_insert ?_ _) (Record.extends_insert ?_ _)
    · rw [hr]
      decide
    · rw [hr]
      decide
  have hlacking : f.verdict .eager r = .error (.unknownField "b") := by
    rw [hf, hr]
    decide +kernel
  have hverdict : f.verdict .shortCircuit r = .ok true := by
    rw [hf, hr]
    decide +kernel
  have hfields : ∀ name ∈ f.fields, s.contains name = true := by
    rw [hf, hs, hr]
    decide +kernel
  have hextended := verdict_on_extension hextends hverdict
  exact ⟨f, r, s, hf, hr, hs, hextends, hlacking, hverdict, hextended.1, hfields,
    hextended.2 hfields⟩

end Formula
end Eligibility
