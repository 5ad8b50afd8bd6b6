import Eligibility.Text.Blank
import Mathlib.Data.List.TakeWhile

/-!
# Runs of characters

The readers of this library split a longest run of some class off a text.  A run that has been
written before a text is split off again exactly where the text does not go on with the class.

**Results.**
* `takeWhile_append_of_stops`, `dropWhile_append_of_stops`: the run and the text after it come apart
  again;
* `takeWhile_append_stops`, `dropWhile_append_stops`: a run is not lengthened by what stops it;
* `trim_eq_self`: a text without white space is not shortened.
-/

namespace Eligibility
namespace Text

/-- Whether the text does not go on with a character of the class. -/
def Stops (p : Char → Bool) : List Char → Prop
  | [] => True
  | c :: _ => p c = false

@[simp] theorem stops_nil (p : Char → Bool) : Stops p [] := trivial

@[simp] theorem stops_cons
    {p : Char → Bool} {c : Char} {cs : List Char} :
    Stops p (c :: cs) ↔ p c = false := Iff.rfl

theorem Stops.mono
    {p q : Char → Bool} {cs : List Char}
    (h : Stops p cs)
    (hpq : ∀ c, p c = false → q c = false) :
    Stops q cs := by
  cases cs with
  | nil => trivial
  | cons c more => exact hpq c h

theorem takeWhile_of_stops
    {p : Char → Bool} {rest : List Char}
    (h : Stops p rest) :
    rest.takeWhile p = [] := by
  cases rest with
  | nil => rfl
  | cons c more => rw [List.takeWhile_cons_of_neg (by simpa using h)]

theorem dropWhile_of_stops
    {p : Char → Bool} {rest : List Char}
    (h : Stops p rest) :
    rest.dropWhile p = rest := by
  cases rest with
  | nil => rfl
  | cons c more => rw [List.dropWhile_cons_of_neg (by simpa using h)]

/-- A run and the text that stops it come apart again. -/
theorem takeWhile_append_of_stops
    {p : Char → Bool} {run rest : List Char}
    (hrun : ∀ c ∈ run, p c = true)
    (hrest : Stops p rest) :
    (run ++ rest).takeWhile p = run := by
  rw [List.takeWhile_append_of_pos hrun, takeWhile_of_stops hrest, List.append_nil]

theorem dropWhile_append_of_stops
    {p : Char → Bool} {run rest : List Char}
    (hrun : ∀ c ∈ run, p c = true)
    (hrest : Stops p rest) :
    (run ++ rest).dropWhile p = rest := by
  rw [List.dropWhile_append_of_pos hrun, dropWhile_of_stops hrest]

/-- A text that the class stops at does not lengthen the run before it. -/
theorem takeWhile_append_stops
    {p : Char → Bool} {rest : List Char}
    (cs : List Char)
    (hrest : Stops p rest) :
    (cs ++ rest).takeWhile p = cs.takeWhile p := by
  rw [List.takeWhile_append, takeWhile_of_stops hrest, List.append_nil]
  split
  · rename_i hall
    exact ((List.takeWhile_prefix p).eq_of_length hall).symm
  · rfl

theorem dropWhile_append_stops
    {p : Char → Bool} {rest : List Char}
    (cs : List Char)
    (hrest : Stops p rest) :
    (cs ++ rest).dropWhile p = cs.dropWhile p ++ rest := by
  rw [List.dropWhile_append, dropWhile_of_stops hrest]
  split
  · rename_i hnil
    rw [List.isEmpty_iff.mp hnil, List.nil_append]
  · rfl

theorem stops_dropWhile
    (p : Char → Bool) (cs : List Char) :
    Stops p (cs.dropWhile p) := by
  induction cs with
  | nil => trivial
  | cons c cs ih =>
      rw [List.dropWhile_cons]
      split
      · exact ih
      · rename_i hc
        simpa using hc

theorem takeWhile_eq_self
    {p : Char → Bool} {run : List Char}
    (hrun : ∀ c ∈ run, p c = true) :
    run.takeWhile p = run := by
  simpa using takeWhile_append_of_stops hrun (stops_nil p)

theorem dropWhile_eq_nil
    {p : Char → Bool} {run : List Char}
    (hrun : ∀ c ∈ run, p c = true) :
    run.dropWhile p = [] := by
  simpa using dropWhile_append_of_stops hrun (stops_nil p)

theorem not_mem_takeWhile
    {p : Char → Bool} {c : Char}
    (h : p c = false)
    (cs : List Char) :
    c ∉ cs.takeWhile p := by
  intro hc
  rw [List.mem_takeWhile_imp hc] at h
  simp at h

theorem Stops.append
    {p : Char → Bool} {first rest : List Char}
    (hfirst : Stops p first)
    (hrest : Stops p rest) :
    Stops p (first ++ rest) := by
  cases first with
  | nil => exact hrest
  | cons c more => exact hfirst

/-- What a class is stopped by is the same for the first character of the text. -/
theorem stops_append
    {p : Char → Bool} {first rest : List Char}
    (hne : first ≠ [])
    (hfirst : ∀ c ∈ first, p c = false) :
    Stops p (first ++ rest) := by
  cases first with
  | nil => exact absurd rfl hne
  | cons c more => exact hfirst c (by simp)

theorem stops_of_all
    {p : Char → Bool} {cs : List Char}
    (h : ∀ c ∈ cs, p c = false) :
    Stops p cs := by
  cases cs with
  | nil => trivial
  | cons c more => exact h c (by simp)

/-- A text without white space is not shortened. -/
theorem trim_eq_self
    {cs : List Char}
    (h : ∀ c ∈ cs, isBlank c = false) :
    trim cs = cs := by
  have hreverse : ∀ c ∈ cs.reverse, isBlank c = false := fun c hc =>
    h c (List.mem_reverse.mp hc)
  rw [trim, trimStart, trimStart, dropWhile_of_stops (stops_of_all h),
    dropWhile_of_stops (stops_of_all hreverse), List.reverse_reverse]

end Text
end Eligibility
