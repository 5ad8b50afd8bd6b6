import Eligibility.Proofs.Condition.RuleText
import Mathlib.Tactic.SplitIfs

/-!
# What is read as a condition

Reading lets nothing through that a rule text could not express again.  The field is a run of word
characters, and an operand holds no quote: between quotes it ends at the next one, and without
quotes it stops at any.  A sign that becomes the operand for want of another is no quote either.

**Results.**
* `writable_of_operand?`, `writable_of_splitSigns?`: the literals that are read;
* `writable_of_ofText`: the conditions that are read;
* `exists_of_ofText`: how the text of a condition that is read starts.
-/

namespace Eligibility

open Text

theorem Literal.writable_ofBare
    {cs : List Char}
    (h : '\'' ∉ cs) :
    (Literal.ofBare (String.ofList cs)).Writable := by
  unfold Literal.ofBare
  split
  · rename_i x hx
    exact (Option.filter_eq_some_iff.mp hx).2
  · simpa [Literal.Writable] using h

namespace Condition

theorem writable_of_operand?
    {cs : List Char} {l : Literal}
    (h : operand? cs = some l) :
    l.Writable := by
  unfold operand? at h
  split at h
  · simp at h
  · rename_i rest
    split at h
    · split at h
      · rw [Option.some.injEq] at h
        rw [← h, Literal.Writable, String.toList_ofList]
        exact not_mem_takeWhile (by decide) rest
      · simp at h
    · simp at h
  · simp only at h
    split at h
    · rw [Option.some.injEq] at h
      rw [← h]
      exact Literal.writable_ofBare (not_mem_takeWhile (by decide) _)
    · simp at h

/-- The literal after the signs can be written, and so can a sign that becomes the literal. -/
theorem writable_of_splitSigns?
    {signs after spelled : List Char} {l : Literal}
    (hsigns : ∀ c ∈ signs, isSign c = true)
    (h : splitSigns? signs after = some (spelled, l)) :
    l.Writable := by
  unfold splitSigns? at h
  split at h
  · simp at h
  · split at h
    · split at h
      · rename_i last first more hreverse
        simp only [Option.some.injEq, Prod.mk.injEq] at h
        rw [← h.2]
        have hlast : isSign last = true := by
          refine hsigns last ?_
          rw [← List.mem_reverse, hreverse]
          simp
        refine Literal.writable_ofBare fun hquote => ?_
        rw [← List.mem_singleton.mp hquote] at hlast
        exact absurd hlast (by decide)
      · simp at h
    · obtain ⟨l', hl', heq⟩ := Option.map_eq_some_iff.mp h
      rw [Prod.mk.injEq] at heq
      rw [← heq.2]
      exact writable_of_operand? hl'

/-- A condition that has been read can be written. -/
theorem writable_of_ofText
    {s : String} {c : Condition}
    (h : ofText s = .ok c) :
    c.Writable := by
  unfold ofText at h
  simp only at h
  split at h
  · rename_i signs literal hsplit
    split at h
    · simp at h
    · rename_i hfield
      split at h
      · rw [Except.ok.injEq] at h
        rw [← h]
        refine ⟨by simpa using hfield, ?_, ?_⟩
        · intro a ha
          exact List.mem_takeWhile_imp (by simpa using ha)
        · exact writable_of_splitSigns? (fun _ => List.mem_takeWhile_imp) hsplit
      · simp at h
  · simp at h

/-! ## How the text starts -/

theorem symbol_of_ofSymbol
    {symbol : String} {k : Comparator}
    (h : Comparator.ofSymbol symbol = .ok k) :
    k.symbol = symbol := by
  unfold Comparator.ofSymbol at h
  split_ifs at h with habove hbelow hequal
  · rw [← Except.ok.inj h, habove, Comparator.symbol]
  · rw [← Except.ok.inj h, hbelow, Comparator.symbol]
  · rw [← Except.ok.inj h, hequal, Comparator.symbol]

/-- The operator is the start of the run of signs. -/
theorem prefix_of_splitSigns?
    {signs after spelled : List Char} {l : Literal}
    (h : splitSigns? signs after = some (spelled, l)) :
    spelled <+: signs := by
  unfold splitSigns? at h
  split at h
  · simp at h
  · split at h
    · split at h
      · rename_i last first more hreverse
        simp only [Option.some.injEq, Prod.mk.injEq] at h
        refine ⟨[last], ?_⟩
        rw [← h.1, ← List.reverse_cons, ← hreverse, List.reverse_reverse]
      · simp at h
    · obtain ⟨l', -, heq⟩ := Option.map_eq_some_iff.mp h
      rw [Prod.mk.injEq] at heq
      exact heq.1 ▸ List.prefix_rfl

/-- The text of a condition starts with its field and the sign of its comparator. -/
theorem exists_of_ofText
    {s : String} {c : Condition}
    (h : ofText s = .ok c) :
    ∃ lead field tail more,
      s.toList = lead ++ (field ++ tail) ∧
      (∀ a ∈ lead, isBlank a = true) ∧
      field ≠ [] ∧
      (∀ a ∈ field, isWord a = true) ∧
      Stops isWord tail ∧
      tail.dropWhile isBlank = c.comparator.symbol.toList ++ more := by
  unfold ofText at h
  simp only at h
  split at h
  · rename_i signs literal hsplit
    split at h
    · simp at h
    · rename_i hfield
      split at h
      · rename_i k hk
        rw [Except.ok.injEq] at h
        subst h
        have hrun := List.takeWhile_append_dropWhile (p := isSign)
          (l := trimStart ((trimStart s.toList).dropWhile isWord))
        obtain ⟨later, hlater⟩ := prefix_of_splitSigns? hsplit
        rw [← hlater, ← String.toList_ofList (l := signs), ← symbol_of_ofSymbol hk,
          List.append_assoc] at hrun
        refine ⟨s.toList.takeWhile isBlank, _, _, _, ?_, fun _ => List.mem_takeWhile_imp, hfield,
          fun _ => List.mem_takeWhile_imp, stops_dropWhile isWord (trimStart s.toList), hrun.symm⟩
        rw [List.takeWhile_append_dropWhile, trimStart, List.takeWhile_append_dropWhile]
      · simp at h
  · simp at h

end Condition
end Eligibility
