import Mathlib.Data.String.Basic
import Mathlib.Tactic.SplitIfs

/-!
# The bytes of a text

Texts are compared character by character.  Their UTF-8 bytes are in the same order: a character of
more bytes starts with a larger one, and of two characters with equally many bytes the greater one
is greater in the first byte in which they differ.

**Results.**
* `utf8EncodeChar_append_lt_iff`: bytes after a character do not matter unless the characters agree;
* `bytes_lt_iff`, `bytes_inj`: texts are in the order of their bytes.
-/

namespace Eligibility
namespace Text

/-- The bytes of a text in UTF-8. -/
def bytes (s : String) : List UInt8 :=
  s.toUTF8.data.toList

theorem bytes_eq_flatMap (s : String) : bytes s = s.toList.flatMap String.utf8EncodeChar := by
  rw [bytes, String.toUTF8_eq_toByteArray, ← String.utf8Encode_toList, List.utf8Encode,
    List.data_toByteArray, List.toList_toArray]

theorem byte_cons_lt_iff
    {a b : Nat} {l k : List UInt8}
    (ha : a < 256)
    (hb : b < 256) :
    UInt8.ofNat a :: l < UInt8.ofNat b :: k ↔ a < b ∨ a = b ∧ l < k := by
  have heq : UInt8.ofNat a = UInt8.ofNat b ↔ a = b := by
    rw [← UInt8.toNat_inj, UInt8.toNat_ofNat', UInt8.toNat_ofNat', Nat.mod_eq_of_lt ha,
      Nat.mod_eq_of_lt hb]
  rw [List.cons_lt_cons_iff, UInt8.ofNat_lt_iff_lt ha hb, heq]

theorem codePoint_lt (c : Char) : c.val.toNat < 0x110000 := by
  rcases c.valid with hlow | hhigh
  · exact Nat.lt_trans hlow (by decide)
  · exact hhigh.2

theorem utf8EncodeChar_append_lt
    {c d : Char}
    (h : c < d)
    (l k : List UInt8) :
    String.utf8EncodeChar c ++ l < String.utf8EncodeChar d ++ k := by
  have hcd : c.val.toNat < d.val.toNat := h
  have hd := codePoint_lt d
  unfold String.utf8EncodeChar
  generalize c.val.toNat = m at hcd ⊢
  generalize d.val.toNat = n at hcd hd ⊢
  -- The bytes hold the digits of the code point to base 64.
  have hm₁ : m / 4096 = m / 64 / 64 := (Nat.div_div_eq_div_mul m 64 64).symm
  have hn₁ : n / 4096 = n / 64 / 64 := (Nat.div_div_eq_div_mul n 64 64).symm
  have hm₂ : m / 262144 % 8 = m / 64 / 64 / 64 := by omega
  have hn₂ : n / 262144 % 8 = n / 64 / 64 / 64 := by omega
  simp only [hm₁, hn₁, hm₂, hn₂]
  -- One case for every pair of lengths.
  split_ifs
  all_goals
    simp only [List.cons_append, List.nil_append]
    repeat rw [byte_cons_lt_iff (by omega) (by omega)]
    omega

theorem append_lt_append_iff (p l k : List UInt8) : p ++ l < p ++ k ↔ l < k := by
  induction p with
  | nil => exact Iff.rfl
  | cons b p ih => simp [ih]

/-- Bytes after a character do not matter unless the characters agree. -/
theorem utf8EncodeChar_append_lt_iff
    {c d : Char} {l k : List UInt8} :
    String.utf8EncodeChar c ++ l < String.utf8EncodeChar d ++ k ↔ c < d ∨ c = d ∧ l < k := by
  rcases lt_trichotomy c d with hlt | rfl | hgt
  · exact iff_of_true (utf8EncodeChar_append_lt hlt l k) (.inl hlt)
  · simp [append_lt_append_iff]
  · have hbytes := List.lt_asymm (utf8EncodeChar_append_lt hgt k l)
    exact iff_of_false hbytes fun h =>
      h.elim (lt_asymm hgt) fun heq => absurd heq.1 (ne_of_gt hgt)

theorem flatMap_utf8EncodeChar_lt_iff
    {l k : List Char} :
    l.flatMap String.utf8EncodeChar < k.flatMap String.utf8EncodeChar ↔ l < k := by
  induction l generalizing k with
  | nil =>
      cases k with
      | nil => simp
      | cons d k =>
          obtain ⟨b, more, hbytes⟩ :=
            List.exists_cons_of_ne_nil (String.utf8EncodeChar_ne_nil (c := d))
          simp [hbytes, List.nil_lt_cons]
  | cons c l ih =>
      cases k with
      | nil => simp
      | cons d k =>
          rw [List.flatMap_cons, List.flatMap_cons, utf8EncodeChar_append_lt_iff, ih,
            List.cons_lt_cons_iff]

/-- Texts are in the order of their bytes. -/
theorem bytes_lt_iff {s t : String} : bytes s < bytes t ↔ s < t := by
  rw [bytes_eq_flatMap, bytes_eq_flatMap, flatMap_utf8EncodeChar_lt_iff, String.lt_iff_toList_lt]

theorem bytes_inj {s t : String} : bytes s = bytes t ↔ s = t := by
  constructor
  · intro h
    apply String.toByteArray_inj.mp
    exact ByteArray.ext (Array.toList_inj.mp h)
  · rintro rfl
    rfl

end Text
end Eligibility
