import Eligibility.Proofs.Formula.Evaluation
import Eligibility.Proofs.Record.Inserts

/-!
# The fields that matter

The fields of a formula are listed by one walk over its conditions, and a verdict is found by another
walk that may leave conditions out.  Whatever the second one looks at is on the list of the first: a
verdict, fault or not, depends on the record only through the fields of the formula.

**Results.**
* `verdict_of_conditions_eq`: a verdict is made of the verdicts of the conditions;
* `verdict_of_agreeOn`: records that agree on the fields of a formula have the same verdict;
* `verdict_only_reads_fields`: with it, inserts of other fields and the order of inserts.
-/

namespace Eligibility
namespace Formula

/-- A verdict is made of the verdicts of the conditions. -/
theorem verdict_of_conditions_eq
    {strategy : Strategy} {r s : Record} {f : Formula}
    (h : ∀ c ∈ f.conditions, c.verdict r = c.verdict s) :
    f.verdict strategy r = f.verdict strategy s := by
  induction f with
  | leaf c =>
      rw [verdict_leaf, verdict_leaf]
      exact h c (by simp [conditions_leaf])
  | join k left right ihl ihr =>
      simp only [conditions_join, List.mem_append] at h
      have hright := ihr fun c hc => h c (.inr hc)
      have hsettle : settle strategy r k right = settle strategy s k right := by
        funext v
        rw [settle, settle, hright]
      rw [verdict_join, verdict_join, ihl fun c hc => h c (.inl hc), hsettle]

/-- Records that agree on the fields of a formula have the same verdict, faults included. -/
theorem verdict_of_agreeOn
    {r s : Record} {f : Formula}
    (h : Record.AgreeOn f.fields r s)
    (strategy : Strategy) :
    f.verdict strategy r = f.verdict strategy s := by
  refine verdict_of_conditions_eq fun c hc => ?_
  rw [Condition.verdict, Condition.verdict, h c.field (mem_fields_iff.mpr ⟨c, hc, rfl⟩)]

/-- **The fields that matter.**  The verdict of a formula, fault or not, is the same on records that
agree on its fields.  An insert under another name does not change it, and neither does the order of
inserts, as long as those under each field of the formula keep theirs. -/
theorem verdict_only_reads_fields
    (f : Formula) (strategy : Strategy) :
    (∀ r s : Record, Record.AgreeOn f.fields r s →
      f.verdict strategy r = f.verdict strategy s) ∧
    (∀ (r : Record) (name : String) (value : FieldValue), name ∉ f.fields →
      f.verdict strategy (r.insert name value) = f.verdict strategy r) ∧
    (∀ l l' : List (String × FieldValue),
      (∀ name ∈ f.fields, Keyed.under name l = Keyed.under name l') →
      f.verdict strategy (Keyed.ofList l) = f.verdict strategy (Keyed.ofList l')) := by
  refine ⟨fun r s h => verdict_of_agreeOn h strategy, ?_, ?_⟩
  · intro r name value h
    exact verdict_of_agreeOn (Record.agreeOn_insert h r value) strategy
  · intro l l' h
    exact verdict_of_agreeOn (Record.agreeOn_ofList h) strategy

/-- Records with the same text for `a`, without `b` and with different further fields have the same
fault; a further field is inserted; and the inserts of `a` and `b` change places with those of
others. -/
theorem verdict_only_reads_fields_reordered :
    ∃ f : Formula,
      f = join .and (leaf ⟨"a", .equal, .text "x"⟩) (leaf ⟨"b", .equal, .text "y"⟩) ∧
      Record.AgreeOn f.fields (Keyed.ofList [("a", .text "x")])
        (Keyed.ofList [("c", .text "z"), ("a", .text "x")]) ∧
      f.verdict .eager (Keyed.ofList [("a", .text "x")]) = .error (.unknownField "b") ∧
      f.verdict .eager (Keyed.ofList [("c", .text "z"), ("a", .text "x")]) =
        .error (.unknownField "b") ∧
      "c" ∉ f.fields ∧
      f.verdict .shortCircuit ((Keyed.ofList [("a", .text "x")]).insert "c" (.text "z")) =
        .error (.unknownField "b") ∧
      (∀ name ∈ f.fields,
        Keyed.under name [("a", .text ""), ("b", .text "y"), ("a", FieldValue.text "x")] =
          Keyed.under name [("b", .text "y"), ("a", .text ""), ("c", .text "z"),
            ("a", FieldValue.text "x")]) ∧
      f.verdict .eager (Keyed.ofList [("b", .text "y"), ("a", .text ""), ("c", .text "z"),
        ("a", .text "x")]) = .ok true := by
  refine ⟨_, rfl, ?_⟩
  obtain ⟨f, hf⟩ : ∃ f,
      f = join .and (leaf ⟨"a", .equal, .text "x"⟩) (leaf ⟨"b", .equal, .text "y"⟩) := ⟨_, rfl⟩
  rw [← hf]
  have hfields : f.fields = ["a", "b"] := by
    rw [hf]
    decide +kernel
  have hagree : Record.AgreeOn f.fields (Keyed.ofList [("a", .text "x")])
      (Keyed.ofList [("c", .text "z"), ("a", .text "x")]) := by
    rw [hfields]
    unfold Record.AgreeOn
    decide +kernel
  have hother : "c" ∉ f.fields := by
    rw [hfields]
    decide
  have horder : ∀ name ∈ f.fields,
      Keyed.under name [("a", .text ""), ("b", .text "y"), ("a", FieldValue.text "x")] =
        Keyed.under name [("b", .text "y"), ("a", .text ""), ("c", .text "z"),
          ("a", FieldValue.text "x")] := by
    rw [hfields]
    decide +kernel
  have hlacks (strategy : Strategy) :
      f.verdict strategy (Keyed.ofList [("a", .text "x")]) = .error (.unknownField "b") := by
    rw [hf]
    cases strategy <;> decide +kernel
  have hholds : f.verdict .eager (Keyed.ofList [("a", .text ""), ("b", .text "y"),
      ("a", .text "x")]) = .ok true := by
    rw [hf]
    decide +kernel
  obtain ⟨hsame, -, horders⟩ := verdict_only_reads_fields f .eager
  have hinsert := (verdict_only_reads_fields f .shortCircuit).2.1
  refine ⟨hagree, hlacks _, ?_, hother, ?_, horder, ?_⟩
  · rw [← hsame _ _ hagree]
    exact hlacks _
  · rw [hinsert _ _ _ hother]
    exact hlacks _
  · rw [← horders _ _ horder]
    exact hholds

end Formula
end Eligibility
