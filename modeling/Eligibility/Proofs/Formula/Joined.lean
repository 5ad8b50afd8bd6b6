import Eligibility.Proofs.Formula.Storable
import Eligibility.Proofs.Infix.Groups

/-!
# Joining rule texts

Two rule texts between parentheses, with a connective between these, are the rule text of the join.
The text around them does not change how they come apart, since a parenthesis ends whatever they
leave open, and reading them uses none of the stacks below.

**Results.**
* `cuts_joined`: how the joined text comes apart;
* `ofText_joined`: the joined text is read as the join.
-/

namespace Eligibility
namespace Formula

open Text Token

/-- The fragments of two texts between parentheses with a connective between these. -/
def joinedFragments (k : Connective) (fs gs : List Fragment) : List Fragment :=
  .token .opening :: (fs ++ .token .closing :: .loose ' ' :: .token (.connective k) ::
    .loose ' ' :: .token .opening :: (gs ++ [.token .closing]))

/-- Between the two texts stand only parentheses, spaces and the word of the connective, so each
comes apart as it does alone. -/
theorem cuts_joined
    (k : Connective) {cs ds : List Char} {fs gs : List Fragment}
    (hfs : Cuts cs fs)
    (hgs : Cuts ds gs)
    (hfsBlank : ∀ c, .loose c ∈ fs → isBlank c = true)
    (hgsBlank : ∀ c, .loose c ∈ gs → isBlank c = true) :
    Cuts ('(' :: (cs ++ ')' :: ' ' :: (k.word.toList ++ ' ' :: '(' :: (ds ++ [')']))))
      (joinedFragments k fs gs) := by
  have hblank {ds : List Char} {gs : List Fragment} (h : Cuts ds gs) :
      Cuts (' ' :: ds) (.loose ' ' :: gs) :=
    .loose (by decide) (by decide) rfl h
  have hright := hgs.append hgsBlank (closes_closing []) (.closing .nil)
  have hconnective : Cuts (k.word.toList ++ ' ' :: '(' :: (ds ++ [')']))
      (.token (.connective k) :: .loose ' ' :: .token .opening :: (gs ++ [.token .closing])) :=
    .connective rfl (comparison?_eq_none _ (by decide) (by decide)) (hblank (.opening hright))
  exact .opening (hfs.append hfsBlank (closes_closing _) (.closing (hblank hconnective)))

theorem filterMap_joinedFragments
    (k : Connective) (fs gs : List Fragment) :
    (joinedFragments k fs gs).filterMap Fragment.token? =
      (.opening :: (fs.filterMap Fragment.token? ++ [.closing])) ++ .connective k ::
        (.opening :: (gs.filterMap Fragment.token? ++ [.closing])) := by
  simp [joinedFragments, List.filterMap_cons, Fragment.token?]

theorem isBlank_of_mem_joinedFragments
    {k : Connective} {fs gs : List Fragment}
    (hfs : ∀ c, .loose c ∈ fs → isBlank c = true)
    (hgs : ∀ c, .loose c ∈ gs → isBlank c = true) :
    ∀ c, .loose c ∈ joinedFragments k fs gs → isBlank c = true := by
  intro c hc
  simp only [joinedFragments, List.mem_cons, List.mem_append, reduceCtorEq, Fragment.loose.injEq,
    List.not_mem_nil, false_or, or_false] at hc
  rcases hc with hc | rfl | rfl | hc
  · exact hfs c hc
  · rfl
  · rfl
  · exact hgs c hc

/-- **Joining rule texts.**  Two texts that are read in strict mode, each between parentheses, and a
connective between them are read as the join of what they are read as, within the depth limit. -/
theorem ofText_joined
    {k : Connective} {first second : String} {f g : Formula}
    (hf : ofText true first = .ok f)
    (hg : ofText true second = .ok g)
    (hdepth : 1 + max f.depth g.depth ≤ maxDepth) :
    ofText true ("(" ++ first ++ ") " ++ k.word ++ " (" ++ second ++ ")") = .ok (join k f g) := by
  obtain ⟨ts, hts, hread⟩ := ofText_eq_ok_iff.mp hf
  obtain ⟨us, hus, hread'⟩ := ofText_eq_ok_iff.mp hg
  obtain ⟨fs, hfs, hfsBlank, rfl, -⟩ := Token.ofText_eq_ok_iff.mp hts
  obtain ⟨gs, hgs, hgsBlank, rfl, -⟩ := Token.ofText_eq_ok_iff.mp hus
  obtain ⟨hpush, hstorable⟩ := pushAll_eq_ok_of_ofTokens hread
  obtain ⟨hpush', hstorable'⟩ := pushAll_eq_ok_of_ofTokens hread'
  have hjoin : (join k f g).depth ≤ maxDepth := by
    rw [depth_join]
    omega
  have hreads := reads_joined k (reads_group_of_pushAll hpush hstorable.depth_le)
    (reads_group_of_pushAll hpush' hstorable'.depth_le)
  refine ofText_eq_ok_iff.mpr ⟨_, Token.ofText_eq_ok_iff.mpr
    ⟨joinedFragments k fs gs, ?_, ?_, filterMap_joinedFragments k fs gs, by simp⟩, ?_⟩
  · simpa using cuts_joined k hfs hgs (hfsBlank rfl) (hgsBlank rfl)
  · exact fun _ => isBlank_of_mem_joinedFragments (hfsBlank rfl) (hgsBlank rfl)
  · rw [ofTokens_of_reads (by simp) hreads, if_pos hjoin]

/-- Both texts have tokens out of place, and both are accepted. -/
theorem ofText_joined_misplaced :
    ofText true "a = 'x' b = 'y' AND" =
      .ok (join .and (leaf ⟨"a", .equal, .text "x"⟩) (leaf ⟨"b", .equal, .text "y"⟩)) ∧
    ofText true "c<2 ()" = .ok (leaf ⟨"c", .below, .number ⟨0x4000000000000000⟩⟩) ∧
    1 + max
        (join .and (leaf ⟨"a", .equal, .text "x"⟩) (leaf ⟨"b", .equal, .text "y"⟩)).depth
        (leaf ⟨"c", .below, .number ⟨0x4000000000000000⟩⟩).depth ≤ maxDepth ∧
    ofText true
        ("(" ++ "a = 'x' b = 'y' AND" ++ ") " ++ Connective.or.word ++ " (" ++ "c<2 ()" ++ ")") =
      .ok (join .or
        (join .and (leaf ⟨"a", .equal, .text "x"⟩) (leaf ⟨"b", .equal, .text "y"⟩))
        (leaf ⟨"c", .below, .number ⟨0x4000000000000000⟩⟩)) := by
  have hf : ofText true "a = 'x' b = 'y' AND" =
      .ok (join .and (leaf ⟨"a", .equal, .text "x"⟩) (leaf ⟨"b", .equal, .text "y"⟩)) := by
    decide +kernel
  have hg : ofText true "c<2 ()" = .ok (leaf ⟨"c", .below, .number ⟨0x4000000000000000⟩⟩) := by
    decide +kernel
  have hdepth : 1 + max
      (join .and (leaf ⟨"a", .equal, .text "x"⟩) (leaf ⟨"b", .equal, .text "y"⟩)).depth
      (leaf ⟨"c", .below, .number ⟨0x4000000000000000⟩⟩).depth ≤ maxDepth := by
    simp [depth_join, depth_leaf, maxDepth]
  exact ⟨hf, hg, hdepth, ofText_joined hf hg hdepth⟩

end Formula
end Eligibility
