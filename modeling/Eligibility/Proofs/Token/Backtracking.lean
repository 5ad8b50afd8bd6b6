import Eligibility.Proofs.Token.Pattern

/-!
# Matching patterns by backtracking

A pattern is matched at the start of a text by backtracking: of what it can take, long runs are tried
before short ones and the first of two patterns before the second, each with what is to come after
it.  A text is split into pieces for several patterns in the same way, so that each piece is taken
shorter only while no pieces after it match.

**Results.**
* `exists_of_first?`, `isSome_first?`: what is found is a match, and one is found if there is any;
* `splits_of_split?`, `isSome_split?`: the same of several patterns;
* `longestFirst_of_stuck`, `longestFirst_concat`: runs that are kept, and runs that are taken shorter.
-/

namespace Eligibility
namespace Token

open Text

namespace Pattern

variable {α : Type} {goOn : List Char → List Char → Option α} {earlier cs run after : List Char}

/-- Tries the starts of a run before a text, the longest first. -/
def longestFirst (run after : List Char) (goOn : List Char → List Char → Option α) : Option α :=
  match run with
  | [] => goOn [] after
  | c :: more =>
    (longestFirst more after fun cut rest => goOn (c :: cut) rest).or
      (goOn [] (c :: (more ++ after)))

/-- What comes of the first way to match the start of a text with which one can go on.  Long runs
are tried before short ones, and the first of two patterns before the second. -/
def first? :
    Pattern → List Char → List Char → (List Char → List Char → Option α) → Option α
  | empty, _, cs, goOn => goOn [] cs
  | one _, _, [], _ => none
  | one p, _, c :: rest, goOn => if p c then goOn [c] rest else none
  | many p, _, cs, goOn => longestFirst (cs.takeWhile p) (cs.dropWhile p) goOn
  | boundary, earlier, cs, goOn => if endsWord earlier ≠ startsWord cs then goOn [] cs else none
  | seq first second, earlier, cs, goOn =>
    first.first? earlier cs fun x rest =>
      second.first? (earlier ++ x) rest fun y rest => goOn (x ++ y) rest
  | either first second, earlier, cs, goOn =>
    (first.first? earlier cs goOn).or (second.first? earlier cs goOn)

/-- Splits all of a text into pieces for several patterns. -/
def split? : List Pattern → List Char → List Char → Option (List (List Char))
  | [], _, cs => if cs = [] then some [] else none
  | p :: ps, earlier, cs =>
    p.first? earlier cs fun cut rest => (split? ps (earlier ++ cut) rest).map (cut :: ·)

/-! ## What is found -/

theorem exists_of_longestFirst
    {a : α}
    (h : longestFirst run after goOn = some a) :
    ∃ cut more, run = cut ++ more ∧ goOn cut (more ++ after) = some a := by
  induction run generalizing goOn with
  | nil => exact ⟨[], [], rfl, h⟩
  | cons c run ih =>
      rw [longestFirst, Option.or_eq_some_iff] at h
      rcases h with h | ⟨-, h⟩
      · obtain ⟨cut, more, rfl, hcut⟩ := ih h
        exact ⟨c :: cut, more, rfl, hcut⟩
      · exact ⟨[], c :: run, rfl, h⟩

theorem isSome_longestFirst
    {cut more : List Char}
    (h : (goOn cut (more ++ after)).isSome = true) :
    (longestFirst (cut ++ more) after goOn).isSome = true := by
  induction cut generalizing goOn with
  | nil =>
      cases more with
      | nil => exact h
      | cons c more =>
          rw [List.nil_append, longestFirst, Option.isSome_or]
          exact Bool.or_eq_true_iff.mpr (.inr h)
  | cons c cut ih =>
      rw [List.cons_append, longestFirst, Option.isSome_or]
      exact Bool.or_eq_true_iff.mpr (.inl (ih h))

/-- What is found is a match. -/
theorem exists_of_first?
    {p : Pattern} {a : α}
    (h : p.first? earlier cs goOn = some a) :
    ∃ cut rest, cs = cut ++ rest ∧ p.Matches earlier cut rest ∧ goOn cut rest = some a := by
  induction p generalizing earlier cs goOn with
  | empty => exact ⟨[], cs, rfl, rfl, h⟩
  | one p =>
      cases cs with
      | nil => simp [first?] at h
      | cons c rest =>
          rw [first?] at h
          split at h
          · rename_i hc
            exact ⟨[c], rest, rfl, ⟨c, rfl, hc⟩, h⟩
          · simp at h
  | many p =>
      obtain ⟨cut, more, hrun, hcut⟩ := exists_of_longestFirst h
      refine ⟨cut, more ++ cs.dropWhile p, ?_, ?_, hcut⟩
      · rw [← List.append_assoc, ← hrun, List.takeWhile_append_dropWhile]
      · intro c hc
        exact List.mem_takeWhile_imp (hrun ▸ List.mem_append_left more hc)
  | boundary =>
      rw [first?] at h
      split at h
      · rename_i hboundary
        exact ⟨[], cs, rfl, ⟨rfl, hboundary⟩, h⟩
      · simp at h
  | seq first second ihf ihs =>
      obtain ⟨x, middle, rfl, hx, h⟩ := ihf h
      obtain ⟨y, rest, rfl, hy, h⟩ := ihs h
      exact ⟨x ++ y, rest, (List.append_assoc x y rest).symm, ⟨x, y, rfl, hx, hy⟩, h⟩
  | either first second ihf ihs =>
      rw [first?, Option.or_eq_some_iff] at h
      rcases h with h | ⟨-, h⟩
      · obtain ⟨cut, rest, hcs, hcut, h⟩ := ihf h
        exact ⟨cut, rest, hcs, .inl hcut, h⟩
      · obtain ⟨cut, rest, hcs, hcut, h⟩ := ihs h
        exact ⟨cut, rest, hcs, .inr hcut, h⟩

/-- If there is a match with which one can go on, one is found. -/
theorem isSome_first?
    {p : Pattern} {cut rest : List Char}
    (hmatch : p.Matches earlier cut rest)
    (h : (goOn cut rest).isSome = true) :
    (p.first? earlier (cut ++ rest) goOn).isSome = true := by
  induction p generalizing earlier cut rest goOn with
  | empty =>
      obtain rfl := hmatch
      exact h
  | one p =>
      obtain ⟨c, rfl, hc⟩ := hmatch
      rwa [List.singleton_append, first?, if_pos hc]
  | many p =>
      have hrun : (cut ++ rest).takeWhile p = cut ++ rest.takeWhile p :=
        List.takeWhile_append_of_pos hmatch
      rw [first?, hrun, List.dropWhile_append_of_pos hmatch]
      refine isSome_longestFirst ?_
      rwa [List.takeWhile_append_dropWhile]
  | boundary =>
      obtain ⟨rfl, hboundary⟩ := hmatch
      rwa [List.nil_append, first?, if_pos hboundary]
  | seq first second ihf ihs =>
      obtain ⟨x, y, rfl, hx, hy⟩ := hmatch
      rw [first?, List.append_assoc]
      exact ihf hx (ihs hy h)
  | either first second ihf ihs =>
      rw [first?, Option.isSome_or, Bool.or_eq_true_iff]
      exact hmatch.imp (ihf · h) (ihs · h)

/-- Pieces of a text match several patterns, each where it stands. -/
def Splits : List Pattern → List Char → List (List Char) → Prop
  | [], _, [] => True
  | p :: ps, earlier, cut :: cuts =>
    p.Matches earlier cut cuts.flatten ∧ Splits ps (earlier ++ cut) cuts
  | _, _, _ => False

/-- The pieces that are found are the text, and they match. -/
theorem splits_of_split?
    {ps : List Pattern} {cuts : List (List Char)}
    (h : split? ps earlier cs = some cuts) :
    cs = cuts.flatten ∧ Splits ps earlier cuts := by
  induction ps generalizing earlier cs cuts with
  | nil =>
      rw [split?] at h
      split at h
      · rename_i hcs
        obtain rfl := Option.some.inj h
        exact ⟨hcs, trivial⟩
      · simp at h
  | cons p ps ih =>
      obtain ⟨cut, rest, rfl, hmatch, hrest⟩ := exists_of_first? h
      obtain ⟨cuts, hcuts, rfl⟩ := Option.map_eq_some_iff.mp hrest
      obtain ⟨rfl, hsplits⟩ := ih hcuts
      exact ⟨rfl, hmatch, hsplits⟩

theorem Splits.length_eq
    {ps : List Pattern} {cuts : List (List Char)}
    (h : Splits ps earlier cuts) :
    cuts.length = ps.length := by
  induction ps generalizing earlier cuts with
  | nil =>
      cases cuts with
      | nil => rfl
      | cons cut cuts => exact h.elim
  | cons p ps ih =>
      cases cuts with
      | nil => exact h.elim
      | cons cut cuts => exact congrArg (· + 1) (ih h.2)

/-- A text that can be split is split. -/
theorem isSome_split?
    {ps : List Pattern} {cuts : List (List Char)}
    (h : Splits ps earlier cuts) :
    (split? ps earlier cuts.flatten).isSome = true := by
  induction ps generalizing earlier cuts with
  | nil =>
      cases cuts with
      | nil => rfl
      | cons cut cuts => exact h.elim
  | cons p ps ih =>
      cases cuts with
      | nil => exact h.elim
      | cons cut cuts =>
          obtain ⟨hmatch, hsplits⟩ := h
          refine isSome_first? hmatch ?_
          rw [Option.isSome_map]
          exact ih hsplits

/-! ## Runs -/

/-- A run is not taken shorter if one cannot go on with what it would give up. -/
theorem longestFirst_of_stuck
    (hstuck : ∀ cut c rest, c ∈ run → goOn cut (c :: rest) = none) :
    longestFirst run after goOn = goOn run after := by
  induction run generalizing goOn with
  | nil => rfl
  | cons c run ih =>
      rw [longestFirst, ih fun cut d rest hd => hstuck (c :: cut) d rest (List.mem_cons_of_mem c hd),
        hstuck [] c _ List.mem_cons_self, Option.or_none]

/-- All of a run is tried first, and after that what it is without its last character. -/
theorem longestFirst_concat (run : List Char) (last : Char) :
    longestFirst (run ++ [last]) after goOn =
      (goOn (run ++ [last]) after).or (longestFirst run (last :: after) goOn) := by
  induction run generalizing goOn with
  | nil => rfl
  | cons c run ih =>
      rw [List.cons_append, longestFirst, ih, longestFirst, Option.or_assoc, List.append_assoc]
      rfl

/-- A run is not taken shorter if one can go on after all of it whenever one can go on after some
of it. -/
theorem longestFirst_eq_longest
    (h : ∀ cut more, run = cut ++ more → (goOn cut (more ++ after)).isSome = true →
      (goOn run after).isSome = true) :
    longestFirst run after goOn = goOn run after := by
  cases hrun : goOn run after with
  | none =>
      cases hfirst : longestFirst run after goOn with
      | none => rfl
      | some a =>
          obtain ⟨cut, more, hcut, ha⟩ := exists_of_longestFirst hfirst
          simpa [hrun, ha] using h cut more hcut
  | some a =>
      rcases List.eq_nil_or_concat run with rfl | ⟨init, last, rfl⟩
      · exact hrun
      · rw [List.concat_eq_append] at hrun ⊢
        rw [longestFirst_concat, hrun, Option.some_or]

variable {p : Char → Bool} {ps : List Pattern}

/-- A run goes to its pattern as a whole if the patterns after it cannot start with a part of it. -/
theorem split?_many
    (hstuck : ∀ earlier c rest, p c = true → split? ps earlier (c :: rest) = none) :
    split? (many p :: ps) earlier cs =
      (split? ps (earlier ++ cs.takeWhile p) (cs.dropWhile p)).map (cs.takeWhile p :: ·) := by
  refine longestFirst_of_stuck fun cut c rest hc => ?_
  rw [hstuck _ c rest (List.mem_takeWhile_imp hc), Option.map_none]

/-- At least one character is the first one and a run after it. -/
theorem first?_several
    {c : Char} {more : List Char}
    (hc : p c = true) :
    (several p).first? earlier (c :: more) goOn =
      longestFirst (more.takeWhile p) (more.dropWhile p) fun cut rest => goOn (c :: cut) rest := by
  rw [several, first?, first?, if_pos hc, first?]
  rfl

theorem first?_several_of_stops
    (h : Stops p cs) :
    (several p).first? earlier cs goOn = none := by
  cases cs with
  | nil => rfl
  | cons c more =>
      have hc : ¬ p c = true := by simpa using h
      rw [several, first?, first?, if_neg hc]

theorem split?_several
    {c : Char} {more : List Char}
    (hc : p c = true)
    (hstuck : ∀ earlier c rest, p c = true → split? ps earlier (c :: rest) = none) :
    split? (several p :: ps) earlier (c :: more) =
      (split? ps (earlier ++ (c :: more).takeWhile p) ((c :: more).dropWhile p)).map
        ((c :: more).takeWhile p :: ·) := by
  rw [split?, first?_several hc, longestFirst_of_stuck, List.takeWhile_cons_of_pos hc,
    List.dropWhile_cons_of_pos hc]
  intro cut d rest hd
  rw [hstuck _ d rest (List.mem_takeWhile_imp hd), Option.map_none]

theorem split?_several_of_stops
    (h : Stops p cs) :
    split? (several p :: ps) earlier cs = none :=
  first?_several_of_stops h

end Pattern
end Token
end Eligibility
