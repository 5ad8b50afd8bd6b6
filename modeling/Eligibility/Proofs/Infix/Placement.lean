import Eligibility.Proofs.Infix.Reading
import Mathlib.Data.List.Chain

/-!
# Where tokens stand

The reader of rules does not note whether an operand or a connective comes next.  Tokens at a wrong
place are refused only where the stacks happen not to match, so `a b AND` is read like `a AND b`.
What is missing is a property of neighbours: an operand is followed by a connective or a closing
parenthesis, and everything else by an operand.

**Invariant.**  Of tokens that stand well placed, each waiting connective has a chain of its own
strength on its left, each mark is the end of what has been read up to it, and the formula on top
is that of the phrase read last.

**Results.**
* `Spells.wellPlaced`: expressions stand well placed;
* `stands_push`, `spells_of_pushAll`: what one token and a whole run preserve;
* `spells_iff_of_ofTokens_eq_ok`: what is read at all is an expression exactly where it stands well
  placed.
-/

namespace Eligibility
namespace Token

/-- Whether the token can be the last of an operand. -/
def endsOperand : Token → Bool
  | condition _ => true
  | closing => true
  | _ => false

/-- Whether the token can be the first of an operand. -/
def startsOperand : Token → Bool
  | condition _ => true
  | opening => true
  | _ => false

/-- Whether the second token may follow the first. -/
def fits (first second : Token) : Bool :=
  first.endsOperand != second.startsOperand

/-- Between parentheses, all neighbours among the tokens fit. -/
def WellPlaced (ts : List Token) : Prop :=
  (opening :: (ts ++ [closing])).IsChain fun first second => first.fits second = true

instance (ts : List Token) : Decidable (WellPlaced ts) :=
  inferInstanceAs (Decidable (List.IsChain _ _))

theorem fits_iff
    {first second : Token} :
    first.fits second = true ↔ first.endsOperand = !second.startsOperand := by
  unfold fits
  cases first.endsOperand <;> cases second.startsOperand <;> decide

end Token

open Formula Phrase Token

theorem Spells.isChain
    {p : Phrase} {ts : List Token} {f : Formula}
    (h : Spells p ts f) :
    ∀ {first last : Token} {rest : List Token},
      first.endsOperand = false →
      last.startsOperand = false →
      (last :: rest).IsChain (fun a b => a.fits b = true) →
      (first :: (ts ++ last :: rest)).IsChain fun a b => a.fits b = true := by
  induction h with
  | condition h =>
      intro first last rest hfirst hlast hrest
      refine .cons_cons ?_ (.cons_cons ?_ hrest)
      · simp [fits, startsOperand, hfirst]
      · simp [fits, endsOperand, hlast]
  | group h ih =>
      intro first last rest hfirst hlast hrest
      have hclosing : (closing :: last :: rest).IsChain fun a b => a.fits b = true :=
        .cons_cons (by simp [fits, endsOperand, hlast]) hrest
      have hinner := @ih opening closing _ rfl rfl hclosing
      refine .cons_cons ?_ ?_
      · simp [fits, startsOperand, hfirst]
      · simpa using hinner
  | single h ih => exact ih
  | @more k ts us f g left right ihl ihr =>
      intro first last rest hfirst hlast hrest
      have hright := @ihr (connective k) last rest rfl hlast hrest
      have hleft := ihl hfirst rfl hright
      simpa using hleft

/-- In an expression no token follows one that it cannot follow. -/
theorem Spells.wellPlaced
    {p : Phrase} {ts : List Token} {f : Formula}
    (h : Spells p ts f) :
    WellPlaced ts :=
  h.isChain rfl rfl (.singleton _)

namespace Formula

/-- The stacks where an operand comes next: what has been read is, for each waiting connective, a
chain before it, and nothing else than opening parentheses. -/
inductive Pending : List Token → Finished → List Mark → Prop
  | start : Pending [] [] []
  | opening {read : List Token} {finished : Finished} {marks : List Mark}
      (h : Pending read finished marks) :
      Pending (read ++ [.opening]) finished (.opening :: marks)
  | waiting {read us : List Token} {finished : Finished} {marks : List Mark}
      {k : Connective} {f : Formula}
      (h : Pending read finished marks)
      (hmarks : Below k.precedence marks)
      (left : Spells (chain k) us f) :
      Pending (read ++ (us ++ [.connective k])) ((f, f.depth) :: finished) (.waiting k :: marks)

/-- The stacks after a phrase that no waiting connective can part. -/
def Ended (p : Phrase) (read : List Token) (finished : Finished) (marks : List Mark) : Prop :=
  ∃ before us f below,
    read = before ++ us ∧
    finished = (f, f.depth) :: below ∧
    Pending before below marks ∧
    Spells p us f ∧
    Below p.strength marks

/-- The stacks after a token. -/
def Stands (last : Token) (read : List Token) (finished : Finished) (marks : List Mark) : Prop :=
  if last.endsOperand then Ended operand read finished marks else Pending read finished marks

theorem stands_after_operand
    {last : Token} {read : List Token} {finished : Finished} {marks : List Mark}
    (h : last.endsOperand = true) :
    Stands last read finished marks ↔ Ended operand read finished marks := by
  rw [Stands, if_pos h]

theorem stands_before_operand
    {last : Token} {read : List Token} {finished : Finished} {marks : List Mark}
    (h : last.endsOperand = false) :
    Stands last read finished marks ↔ Pending read finished marks := by
  rw [Stands, if_neg (by simp [h])]

/-! ## Closing keeps the invariant -/

theorem reduce_eq_ok
    {k : Connective} {f g : Formula} {below finished : Finished}
    (h : reduce k ((g, g.depth) :: (f, f.depth) :: below) = .ok finished) :
    finished = (join k f g, (join k f g).depth) :: below := by
  rw [reduce_eq] at h
  split at h
  · simpa using h.symm
  · simp at h

theorem Pending.yieldTo
    {before : List Token} {below : Finished} {marks : List Mark}
    (h : Pending before below marks) :
    ∀ {k : Connective} {p : Phrase} {us : List Token} {f : Formula}
      {finished : Finished} {marks' : List Mark},
      Spells p us f →
      Below p.strength marks →
      k.precedence ≤ p.strength →
      Formula.yieldTo k ((f, f.depth) :: below) marks = .ok (finished, marks') →
      Ended (chain k) (before ++ us) finished marks' := by
  induction h with
  | start =>
      intro k p us f finished marks' hus _ hk hyield
      simp only [Formula.yieldTo, Except.ok.injEq, Prod.mk.injEq] at hyield
      obtain ⟨rfl, rfl⟩ := hyield
      exact ⟨[], us, f, [], rfl, rfl, .start, hus.weaken hk, below_nil _⟩
  | @opening read below marks h ih =>
      intro k p us f finished marks' hus _ hk hyield
      simp only [Formula.yieldTo, Except.ok.injEq, Prod.mk.injEq] at hyield
      obtain ⟨rfl, rfl⟩ := hyield
      exact ⟨_, us, f, below, rfl, rfl, .opening h, hus.weaken hk, below_opening _ _⟩
  | @waiting read ts below marks j g h hmarks left ih =>
      intro k p us f finished marks' hus hp hk hyield
      have hj : j.precedence < p.strength := hp j marks rfl
      by_cases hjk : j.precedence < k.precedence
      · rw [Formula.yieldTo, if_pos hjk] at hyield
        simp only [Except.ok.injEq, Prod.mk.injEq] at hyield
        obtain ⟨rfl, rfl⟩ := hyield
        exact ⟨_, us, f, _, rfl, rfl, .waiting h hmarks left, hus.weaken hk,
          below_waiting hjk marks⟩
      · rw [Formula.yieldTo, if_neg hjk] at hyield
        cases hreduce : reduce j ((f, f.depth) :: (g, g.depth) :: below) with
        | error fault => simp [hreduce] at hyield
        | ok joined =>
            rw [reduce_eq_ok hreduce] at hreduce
            simp only [hreduce] at hyield
            -- the waiting connective, its chain and the new phrase are one longer chain
            have hjoin : Spells (chain j) (ts ++ .connective j :: us) (join j g f) :=
              .more left (hus.weaken (strength_side_le hj))
            have hended := ih hjoin hmarks (Nat.le_of_not_lt hjk) hyield
            simpa using hended

theorem Ended.yieldTo
    {k : Connective} {p : Phrase} {read : List Token}
    {finished finished' : Finished} {marks marks' : List Mark}
    (h : Ended p read finished marks)
    (hk : k.precedence ≤ p.strength)
    (hyield : Formula.yieldTo k finished marks = .ok (finished', marks')) :
    Ended (chain k) read finished' marks' := by
  obtain ⟨before, us, f, below, rfl, rfl, hpending, hus, hmarks⟩ := h
  exact hpending.yieldTo hus hmarks hk hyield

/-- Nothing binds less tightly than an expression. -/
theorem not_below_expression
    {k : Connective} {marks : List Mark} :
    ¬ Below expression.strength (.waiting k :: marks) := by
  intro h
  have hk := h k marks rfl
  cases k <;> simp [expression, strength, Connective.precedence] at hk

/-- What joins all waiting connectives can be given an expression alone. -/
theorem Ended.joined
    {α : Type} {close : Finished → List Mark → Except Fault α} {result : α}
    {read : List Token} {finished : Finished} {marks : List Mark}
    (h : Ended operand read finished marks)
    (hjoin : (Formula.yieldTo .or finished marks).bind (fun s => close s.1 s.2) =
      close finished marks)
    (hclose : close finished marks = .ok result) :
    ∃ finished' marks',
      Ended expression read finished' marks' ∧ close finished' marks' = .ok result := by
  rw [← hjoin] at hclose
  cases hyield : Formula.yieldTo .or finished marks with
  | error fault =>
      rw [hyield] at hclose
      simp [Except.bind] at hclose
  | ok s =>
      obtain ⟨finished', marks'⟩ := s
      rw [hyield] at hclose
      exact ⟨finished', marks', h.yieldTo (by decide) hyield, hclose⟩

theorem Ended.closeGroup
    {read : List Token} {finished finished' : Finished} {marks marks' : List Mark}
    (h : Ended operand read finished marks)
    (hclose : Formula.closeGroup finished marks = .ok (finished', marks')) :
    Ended operand (read ++ [.closing]) finished' marks' := by
  obtain ⟨_, _, ⟨before, us, f, below, rfl, rfl, hpending, hus, hmarks⟩, hclose⟩ :=
    h.joined (closeGroup_yieldTo .or finished marks) hclose
  cases hpending with
  | start => simp [Formula.closeGroup] at hclose
  | waiting hpending _ left => exact absurd hmarks not_below_expression
  | @opening before' _ marks hpending =>
      simp only [Formula.closeGroup, Except.ok.injEq, Prod.mk.injEq] at hclose
      obtain ⟨rfl, rfl⟩ := hclose
      exact ⟨before', .opening :: (us ++ [.closing]), f, below, by simp, rfl, hpending,
        .group hus, below_operand _⟩

theorem Ended.closeAll
    {read : List Token} {finished finished' : Finished} {marks : List Mark}
    (h : Ended operand read finished marks)
    (hclose : Formula.closeAll finished marks = .ok finished') :
    ∃ f, Spells expression read f ∧ finished' = [(f, f.depth)] := by
  obtain ⟨_, _, ⟨before, us, f, below, rfl, rfl, hpending, hus, hmarks⟩, hclose⟩ :=
    h.joined (closeAll_yieldTo .or finished marks) hclose
  cases hpending with
  | start =>
      simp only [Formula.closeAll, Except.ok.injEq] at hclose
      exact ⟨f, hus, hclose.symm⟩
  | waiting hpending _ left => exact absurd hmarks not_below_expression
  | opening hpending => simp [Formula.closeAll] at hclose

/-! ## One token and a whole run -/

/-- A token that fits after the last one keeps the stacks in the shape of an unfinished
expression. -/
theorem stands_push
    {last token : Token} {read : List Token}
    {finished finished' : Finished} {marks marks' : List Mark}
    (h : Stands last read finished marks)
    (hfits : last.fits token = true)
    (hpush : push finished marks token = .ok (finished', marks')) :
    Stands token (read ++ [token]) finished' marks' := by
  have hplace := fits_iff.mp hfits
  cases token with
  | condition text =>
      rw [stands_before_operand hplace] at h
      rw [stands_after_operand rfl]
      rw [push] at hpush
      cases htext : Condition.ofText text with
      | error fault => simp [htext] at hpush
      | ok c =>
          simp only [htext, Except.ok.injEq, Prod.mk.injEq] at hpush
          obtain ⟨rfl, rfl⟩ := hpush
          exact ⟨read, [.condition text], leaf c, finished, rfl, by rw [depth_leaf], h,
            .condition htext, below_operand _⟩
  | opening =>
      rw [stands_before_operand hplace] at h
      rw [stands_before_operand rfl]
      simp only [push, Except.ok.injEq, Prod.mk.injEq] at hpush
      obtain ⟨rfl, rfl⟩ := hpush
      exact .opening h
  | closing =>
      rw [stands_after_operand hplace] at h
      rw [stands_after_operand rfl]
      exact h.closeGroup hpush
  | connective k =>
      rw [stands_after_operand hplace] at h
      rw [stands_before_operand rfl]
      rw [push_connective] at hpush
      cases hyield : yieldTo k finished marks with
      | error fault =>
          rw [hyield] at hpush
          simp [Except.bind] at hpush
      | ok s =>
          obtain ⟨closed, waiting⟩ := s
          obtain ⟨before, us, f, below, rfl, rfl, hpending, hus, hmarks⟩ :=
            h.yieldTo (by cases k <;> decide) hyield
          simp only [hyield, Except.bind, Except.ok.injEq, Prod.mk.injEq] at hpush
          obtain ⟨rfl, rfl⟩ := hpush
          simpa using Pending.waiting hpending hmarks hus

/-- A run of tokens that fit after one another ends in a single formula, which the tokens spell. -/
theorem spells_of_pushAll
    {ts : List Token} :
    ∀ {last : Token} {read : List Token} {finished finished' : Finished} {marks : List Mark},
      Stands last read finished marks →
      (last :: (ts ++ [.closing])).IsChain (fun a b => a.fits b = true) →
      pushAll finished marks ts = .ok finished' →
      ∃ f, Spells expression (read ++ ts) f ∧ finished' = [(f, f.depth)] := by
  induction ts with
  | nil =>
      intro last read finished finished' marks h hchain hpush
      have hfits : last.fits .closing = true := by simpa using hchain
      rw [stands_after_operand (fits_iff.mp hfits)] at h
      simpa using h.closeAll hpush
  | cons token ts ih =>
      intro last read finished finished' marks h hchain hpush
      rw [List.cons_append, List.isChain_cons_cons] at hchain
      obtain ⟨between, marks', hstep, hrest⟩ := pushAll_cons_eq_ok_iff.mp hpush
      have hstands := stands_push h hchain.1 (push_eq_ok_iff.mpr hstep)
      simpa using ih hstands hchain.2 hrest

/-- Well placed tokens that are read at all are an expression with the formula that is read. -/
theorem spells_of_wellPlaced
    {ts : List Token} {f : Formula}
    (hplaced : WellPlaced ts)
    (h : ofTokens ts = .ok f) :
    Spells expression ts f := by
  obtain ⟨d, hpush⟩ := pushAll_of_ofTokens h
  have hstart : Stands .opening [] [] [] := (stands_before_operand rfl).mpr .start
  obtain ⟨g, hspells, hg⟩ := spells_of_pushAll hstart hplaced hpush
  simp only [List.cons.injEq, Prod.mk.injEq] at hg
  rw [hg.1.1]
  exact hspells

/-- **What is read and what is an expression.**  Tokens that are read as a formula are an
expression with a formula exactly where they stand well placed and it is the same formula. -/
theorem spells_iff_of_ofTokens_eq_ok
    {ts : List Token} {f : Formula}
    (h : ofTokens ts = .ok f)
    (g : Formula) :
    Spells expression ts g ↔ WellPlaced ts ∧ g = f := by
  constructor
  · intro hg
    have hplaced := hg.wellPlaced
    refine ⟨hplaced, ?_⟩
    have hread := ofTokens_of_spells hg
    rw [h] at hread
    split at hread
    · simpa using hread.symm
    · simp at hread
  · rintro ⟨hplaced, rfl⟩
    exact spells_of_wellPlaced hplaced h

/-- The group is read as the left side of the connective behind it. -/
theorem spells_of_reading_group :
    ofTokens
          [.opening, .condition "a = 'x'", .connective .or, .condition "b = 'y'", .closing,
            .connective .and, .condition "c = 'z'"] =
        .ok (join .and
          (join .or (leaf ⟨"a", .equal, .text "x"⟩) (leaf ⟨"b", .equal, .text "y"⟩))
          (leaf ⟨"c", .equal, .text "z"⟩)) ∧
      Spells expression
        [.opening, .condition "a = 'x'", .connective .or, .condition "b = 'y'", .closing,
          .connective .and, .condition "c = 'z'"]
        (join .and
          (join .or (leaf ⟨"a", .equal, .text "x"⟩) (leaf ⟨"b", .equal, .text "y"⟩))
          (leaf ⟨"c", .equal, .text "z"⟩)) := by
  have hread : ofTokens
      [.opening, .condition "a = 'x'", .connective .or, .condition "b = 'y'", .closing,
        .connective .and, .condition "c = 'z'"] =
      .ok (join .and
        (join .or (leaf ⟨"a", .equal, .text "x"⟩) (leaf ⟨"b", .equal, .text "y"⟩))
        (leaf ⟨"c", .equal, .text "z"⟩)) := by
    decide +kernel
  exact ⟨hread, (spells_iff_of_ofTokens_eq_ok hread _).mpr ⟨by decide, rfl⟩⟩

/-- Tokens at a wrong place that are read all the same: two operands before their connective, and
an operand before an empty pair of parentheses. -/
theorem ofTokens_reads_misplaced :
    (ofTokens [.condition "a = 'x'", .condition "b = 'y'", .connective .and] =
        .ok (join .and (leaf ⟨"a", .equal, .text "x"⟩) (leaf ⟨"b", .equal, .text "y"⟩)) ∧
      ¬ ∃ g, Spells expression
        [.condition "a = 'x'", .condition "b = 'y'", .connective .and] g) ∧
    (ofTokens [.condition "a = 'x'", .opening, .closing] =
        .ok (leaf ⟨"a", .equal, .text "x"⟩) ∧
      ¬ ∃ g, Spells expression [.condition "a = 'x'", .opening, .closing] g) := by
  refine ⟨⟨by decide +kernel, ?_⟩, ⟨by decide +kernel, ?_⟩⟩
  · rintro ⟨g, hg⟩
    exact absurd hg.wellPlaced (by decide)
  · rintro ⟨g, hg⟩
    exact absurd hg.wellPlaced (by decide)

end Formula
end Eligibility
