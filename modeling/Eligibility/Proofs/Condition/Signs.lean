import Eligibility.Proofs.Condition.Reading

/-!
# The signs of a condition

After its field a condition has a run of comparison signs, which is taken to be as long as it can
be.  With an operand after it, the run has to be the sign of a comparator.  With nothing but white
space after it, the last sign of the run is the operand, and the signs before it are the sign of a
comparator.

**Results.**
* `signRun_iff`: the field and the run of signs of a text, by what is split off in turn;
* `SignRun.unique`: a text has one field and one run of signs;
* `ofText_eq_ok_iff_signRun`: the texts that are conditions, by their runs of signs.
-/

namespace Eligibility
namespace Condition

open Text

/-- A text that starts with a word and a run of signs, both as long as they can be, with white space
or none before each.  The word, the run and the text after it are given. -/
inductive SignRun : List Char → List Char → List Char → List Char → Prop
  | intro {lead field before run after : List Char}
      (hlead : ∀ c ∈ lead, isBlank c = true)
      (hne : field ≠ [])
      (hfield : ∀ c ∈ field, isWord c = true)
      (hword : Stops isWord (before ++ (run ++ after)))
      (hbefore : ∀ c ∈ before, isBlank c = true)
      (hblank : Stops isBlank (run ++ after))
      (hrun : ∀ c ∈ run, isSign c = true)
      (hsign : Stops isSign after) :
      SignRun (lead ++ (field ++ (before ++ (run ++ after)))) field run after

/-- What comes after the field of a condition, without white space before it. -/
def afterField (cs : List Char) : List Char :=
  trimStart ((trimStart cs).dropWhile isWord)

theorem takeWhile_append_trimStart (cs : List Char) :
    cs.takeWhile isBlank ++ trimStart cs = cs :=
  List.takeWhile_append_dropWhile

/-- The field and the run of signs are what is split off in turn, each as long as it can be. -/
theorem signRun_iff
    {cs field run after : List Char} :
    SignRun cs field run after ↔
      field ≠ [] ∧
      (trimStart cs).takeWhile isWord = field ∧
      (afterField cs).takeWhile isSign = run ∧
      (afterField cs).dropWhile isSign = after := by
  constructor
  · intro h
    cases h with
    | @intro lead _ before _ _ hlead hne hfield hword hbefore hblank hrun hsign =>
        have hstart : trimStart (lead ++ (field ++ (before ++ (run ++ after)))) =
            field ++ (before ++ (run ++ after)) :=
          trimStart_append hlead (stops_append hne fun c hc => isBlank_of_isWord (hfield c hc))
        have hafter : afterField (lead ++ (field ++ (before ++ (run ++ after)))) =
            run ++ after := by
          rw [afterField, hstart, dropWhile_append_of_stops hfield hword,
            trimStart_append hbefore hblank]
        rw [hstart, hafter]
        exact ⟨hne, takeWhile_append_of_stops hfield hword,
          takeWhile_append_of_stops hrun hsign, dropWhile_append_of_stops hrun hsign⟩
  · rintro ⟨hne, rfl, rfl, rfl⟩
    have hrun : (afterField cs).takeWhile isSign ++ (afterField cs).dropWhile isSign =
        afterField cs := List.takeWhile_append_dropWhile
    have hbefore : ((trimStart cs).dropWhile isWord).takeWhile isBlank ++ afterField cs =
        (trimStart cs).dropWhile isWord := takeWhile_append_trimStart _
    have hlead : ∀ c ∈ cs.takeWhile isBlank, isBlank c = true := fun c =>
      List.mem_takeWhile_imp
    have hintro := SignRun.intro hlead hne (fun c => List.mem_takeWhile_imp)
      (by rw [hrun, hbefore]; exact stops_dropWhile isWord _)
      (fun c => List.mem_takeWhile_imp)
      (by rw [hrun]; exact stops_dropWhile isBlank _)
      (fun c => List.mem_takeWhile_imp) (stops_dropWhile isSign (afterField cs))
    rwa [hrun, hbefore, List.takeWhile_append_dropWhile, takeWhile_append_trimStart] at hintro

theorem SignRun.unique
    {cs field run after field' run' after' : List Char}
    (h : SignRun cs field run after)
    (h' : SignRun cs field' run' after') :
    field = field' ∧ run = run' ∧ after = after' := by
  obtain ⟨-, rfl, rfl, rfl⟩ := signRun_iff.mp h
  obtain ⟨-, rfl, rfl, rfl⟩ := signRun_iff.mp h'
  exact ⟨rfl, rfl, rfl⟩

theorem SignRun.isSign
    {cs field run after : List Char}
    (h : SignRun cs field run after) :
    ∀ c ∈ run, isSign c = true := by
  cases h with
  | intro _ _ _ _ _ _ hrun _ => exact hrun

/-! ## Reading by the run -/

theorem ofSymbol_eq_ok_iff
    {symbol : String} {k : Comparator} :
    Comparator.ofSymbol symbol = .ok k ↔ k.symbol = symbol := by
  constructor
  · exact symbol_of_ofSymbol
  · rintro rfl
    exact Comparator.ofSymbol_symbol k

/-- A sign alone is no number. -/
theorem ofBare_sign
    {sign : Char}
    (h : isSign sign = true) :
    Literal.ofBare (String.ofList [sign]) = .text (String.singleton sign) := by
  simp only [isSign, Bool.or_eq_true, decide_eq_true_eq] at h
  rcases h with ((rfl | rfl) | rfl) | rfl
  · decide +kernel
  · decide +kernel
  · decide +kernel
  · decide +kernel

/-- The comparator and the literal of a condition, by the run of signs and what comes after it:
either the run is the sign of the comparator and an operand comes after it, or the run ends in one
more sign and nothing but white space comes after it. -/
def Reads (run after : List Char) (k : Comparator) (l : Literal) : Prop :=
  (run = k.symbol.toList ∧ operand? (trimStart after) = some l) ∨
    ∃ last, run = k.symbol.toList ++ [last] ∧ (∀ c ∈ after, isBlank c = true) ∧
      l = .text (String.singleton last)

theorem splitSigns?_eq_some_iff
    {run after : List Char} {k : Comparator} {l : Literal}
    (hrun : ∀ c ∈ run, isSign c = true) :
    splitSigns? run after = some (k.symbol.toList, l) ↔ Reads run after k l := by
  obtain ⟨sign, hsymbol, -⟩ := exists_symbol k
  rw [Reads, hsymbol, ← trimStart_eq_nil_iff, splitSigns?]
  by_cases hnil : run = []
  · simp [hnil]
  rw [if_neg hnil]
  cases trimStart after with
  | cons a more =>
      simp only [Option.map_eq_some_iff, Prod.mk.injEq, reduceCtorEq, false_and, and_false,
        exists_false, or_false]
      constructor
      · rintro ⟨l', hread, hsigns, rfl⟩
        exact ⟨hsigns, hread⟩
      · rintro ⟨hsigns, hread⟩
        exact ⟨l, hread, hsigns, rfl⟩
  | nil =>
      -- the run is given backwards, its last sign first
      obtain ⟨signs, rfl⟩ : ∃ signs, run = signs.reverse := ⟨run.reverse, by simp⟩
      rw [List.reverse_reverse]
      cases signs with
      | nil => simp at hnil
      | cons last signs =>
          cases signs with
          | nil => simp [operand?]
          | cons first more =>
              have hlast : isSign last = true := hrun last (by simp)
              have hreverse : (last :: first :: more).reverse = (first :: more).reverse ++ [last] :=
                List.reverse_cons
              simp only [ofBare_sign hlast, operand?, hreverse, Option.some.injEq, Prod.mk.injEq,
                reduceCtorEq, and_false, false_or, true_and]
              constructor
              · rintro ⟨hsigns, rfl⟩
                exact ⟨last, by rw [hsigns], rfl⟩
              · rintro ⟨last', hsigns, rfl⟩
                obtain ⟨hfirst, hend⟩ := List.append_inj' hsigns rfl
                obtain rfl : last = last' := by simpa using hend
                exact ⟨hfirst, rfl⟩

theorem ofText_of_signRun
    {s : String} {c : Condition} {field run after : List Char}
    (h : SignRun s.toList field run after) :
    ofText s = .ok c ↔
      c.field = String.ofList field ∧ Reads run after c.comparator c.literal := by
  obtain ⟨name, k, l⟩ := c
  rw [← splitSigns?_eq_some_iff h.isSign]
  obtain ⟨hne, rfl, rfl, rfl⟩ := signRun_iff.mp h
  unfold ofText
  simp only
  rw [← afterField]
  split
  · rename_i signs literal hsplit
    rw [if_neg hne, hsplit, Option.some.injEq, Prod.mk.injEq, ← String.ofList_inj,
      String.ofList_toList, eq_comm (a := String.ofList signs), ← ofSymbol_eq_ok_iff]
    cases Comparator.ofSymbol (String.ofList signs) with
    | error fault => simp
    | ok k' => simp [eq_comm (b := name)]
  · rename_i hsplit
    simp [hsplit]

/-- **The signs of a condition.**  The texts that are conditions are those that start with a field and
a run of signs, as long as they can be, where the run is the sign of the comparator and an operand
comes after it, or where the run is the sign of the comparator with one more sign, which is the
operand since nothing but white space comes after it. -/
theorem ofText_eq_ok_iff_signRun
    {s : String} {c : Condition} :
    ofText s = .ok c ↔
      ∃ field run after, SignRun s.toList field run after ∧ c.field = String.ofList field ∧
        ((run = c.comparator.symbol.toList ∧ operand? (trimStart after) = some c.literal) ∨
          ∃ last, run = c.comparator.symbol.toList ++ [last] ∧
            (∀ a ∈ after, isBlank a = true) ∧ c.literal = .text (String.singleton last)) := by
  constructor
  · intro h
    have hfield : (trimStart s.toList).takeWhile isWord ≠ [] := by
      intro hnil
      simp only [ofText, hnil] at h
      split at h
      · simp at h
      · simp at h
    have hrun := signRun_iff.mpr ⟨hfield, rfl, rfl, rfl⟩
    exact ⟨_, _, _, hrun, (ofText_of_signRun hrun).mp h⟩
  · rintro ⟨field, run, after, hrun, hread⟩
    exact (ofText_of_signRun hrun).mpr hread

/-- A run of two signs that is no comparator is read as one where no operand follows. -/
theorem ofText_reads_part_of_run :
    ofText "age >=" = .ok ⟨"age", .above, .text "="⟩ ∧
    SignRun "age >=".toList "age".toList ">=".toList [] ∧
    ¬ ∀ s c field run after, ofText s = .ok c → SignRun s.toList field run after →
      run = c.comparator.symbol.toList := by
  have hread : ofText "age >=" = .ok ⟨"age", .above, .text "="⟩ := by decide +kernel
  have hrun : SignRun "age >=".toList "age".toList ">=".toList [] :=
    signRun_iff.mpr (by decide +kernel)
  refine ⟨hread, hrun, ?_⟩
  intro h
  exact absurd (h _ _ _ _ _ hread hrun) (by decide)

end Condition
end Eligibility
