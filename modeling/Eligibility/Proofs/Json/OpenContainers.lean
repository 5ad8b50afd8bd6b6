import Eligibility.Proofs.Json.Nesting
import Mathlib.Logic.Relation

/-!
# Open containers

While a document is read, some containers are open.  Their number is never larger than the nesting
that is measured on the characters of the text beforehand, and what is read nests no more deeply,
whether the text spells a document, breaks off or goes wrong at some place.

**Invariant.**  The nesting that is measured on the lexemes which are left, counted on from the
containers that are open and the nesting of what has been read, is the same at every moment.

**Results.**
* `lexemesNesting_cut_le`: lexemes nest no more deeply than the text that they are cut off;
* `openCount_advance?`, `nesting_advance?`: what a lexeme does to the open containers and to what has
  been read;
* `Moment.Step.total_eq`, `Moment.Reaches.total_eq`: the invariant;
* `Moment.openCount_le`: how many containers are open while a text is read;
* `nesting_ofText_le`: the nesting of what is read.
-/

namespace Eligibility
namespace Json

/-! ## Texts that stop being made of lexemes -/

theorem le_nestingFrom
    (place : Place) (opened deepest : Nat) (cs : List Char) :
    deepest ≤ nestingFrom place opened deepest cs := by
  fun_induction nestingFrom place opened deepest cs <;> omega

theorem le_lexemesNesting
    (opened deepest : Nat) (ls : List Lexeme) :
    deepest ≤ lexemesNesting opened deepest ls := by
  fun_induction lexemesNesting opened deepest ls <;> omega

/-- What follows the last lexeme can only add to the measure. -/
theorem lexemesNesting_cut_le
    (cs : List Char) {opened deepest : Nat} (h : opened ≤ deepest) :
    lexemesNesting opened deepest (Lexeme.cut [] cs) ≤ nestingFrom .outside opened deepest cs := by
  -- the lexemes that have been cut off before do not matter
  have hall (done : List Lexeme) {opened deepest : Nat} (h : opened ≤ deepest) :
      lexemesNesting opened deepest (Lexeme.cut [] cs) ≤
        nestingFrom .outside opened deepest cs := by
    fun_induction Lexeme.cut done cs generalizing opened deepest with
    | case1 done =>
        rw [Lexeme.cut]
        exact le_nestingFrom .outside opened deepest []
    | case2 done c cs hspace ih =>
        rw [Lexeme.cut_space hspace, nestingFrom_space hspace]
        exact ih h
    | case3 done c cs hspace l hmark ih =>
        rw [Lexeme.cut_mark (by simpa using hspace) hmark, lexemesNesting_cons h,
          ← List.singleton_append, nestingFrom_spelled (.mark hmark) h]
        exact ih (Nat.le_max_right _ _)
    | case4 done c cs hspace hmark l rest hcut ih =>
        obtain ⟨used, hused, hspelled⟩ := Lexeme.exists_spelled_of_scalar? hcut
        rw [Lexeme.cut_first_scalar hcut (by simpa using hspace) (by simpa using hmark), hused,
          lexemesNesting_cons h, nestingFrom_spelled hspelled h]
        exact ih (Nat.le_max_right _ _)
    | case5 done c cs hspace hmark hcut =>
        rw [Lexeme.cut_invalid (by simpa using hspace) hmark hcut]
        exact le_nestingFrom .outside opened deepest (c :: cs)
  exact hall [] h

namespace Document

/-! ## What is unfinished -/

theorem itemsNesting_append (first second : List Document) :
    itemsNesting (first ++ second) = max (itemsNesting first) (itemsNesting second) := by
  induction first with
  | nil => simp [itemsNesting]
  | cons d first ih => rw [List.cons_append, itemsNesting, itemsNesting, ih, Nat.max_assoc]

theorem membersNesting_append (first second : List (Option String × Document)) :
    membersNesting (first ++ second) = max (membersNesting first) (membersNesting second) := by
  induction first with
  | nil => simp [membersNesting]
  | cons m first ih => rw [List.cons_append, membersNesting, membersNesting, ih, Nat.max_assoc]

theorem itemsNesting_reverse (items : List Document) :
    itemsNesting items.reverse = itemsNesting items := by
  induction items with
  | nil => rfl
  | cons d items ih =>
      rw [List.reverse_cons, itemsNesting_append, ih]
      simp [itemsNesting, Nat.max_comm]

theorem membersNesting_reverse (members : List (Option String × Document)) :
    membersNesting members.reverse = membersNesting members := by
  induction members with
  | nil => rfl
  | cons m members ih =>
      rw [List.reverse_cons, membersNesting_append, ih]
      simp [membersNesting, Nat.max_comm]

/-- How deeply the finished parts of open containers nest, counted from the outermost container. -/
def held : List Open → Nat
  | [] => 0
  | .list items :: outer => max (outer.length + itemsNesting items + 1) (held outer)
  | .object members _ :: outer => max (outer.length + membersNesting members + 1) (held outer)

theorem nesting_abandon
    (d : Document) (opened : List Open) :
    (abandon d opened).nesting = max (opened.length + d.nesting) (held opened) := by
  fun_induction abandon d opened with
  | case1 d => simp [held]
  | case2 d items outer ih =>
      rw [ih, held, nesting, itemsNesting_reverse, itemsNesting, List.length_cons]
      omega
  | case3 d members key outer ih =>
      rw [ih, held, nesting, membersNesting_reverse, membersNesting, List.length_cons]
      omega

/-- The number of containers that are open, the one that has just been opened included. -/
def openCount (opened : List Open) : Expected → Nat
  | .value | .after _ => opened.length
  | .firstItem | .firstKey | .key _ | .colon _ _ => opened.length + 1

/-! ## What one lexeme does -/

/-- A value may start at a place; `inner` are the containers around the value. -/
inductive Starts : List Open → Expected → List Open → Prop
  | value {opened : List Open} : Starts opened .value opened
  | firstItem {opened : List Open} : Starts opened .firstItem (.list [] :: opened)

/-- A lexeme takes the reader from one place to another. -/
inductive Takes : List Open → Expected → Lexeme → List Open → Expected → Prop
  | scalar {opened inner : List Open} {expected : Expected} {l : Lexeme} {d : Document}
      (hstart : Starts opened expected inner) (hl : ofLexeme? l = some d) :
      Takes opened expected l inner (.after d)
  | openList {opened inner : List Open} {expected : Expected}
      (hstart : Starts opened expected inner) :
      Takes opened expected .openList inner .firstItem
  | openObject {opened inner : List Open} {expected : Expected}
      (hstart : Starts opened expected inner) :
      Takes opened expected .openObject inner .firstKey
  | emptyList {opened : List Open} :
      Takes opened .firstItem .closeList opened (.after (list [] true))
  | emptyObject {opened : List Open} :
      Takes opened .firstKey .closeObject opened (.after (object [] true))
  | firstKey {opened : List Open} {key : Option String} :
      Takes opened .firstKey (.text key) opened (.colon [] key)
  | key {opened : List Open} {members : List (Option String × Document)} {key : Option String} :
      Takes opened (.key members) (.text key) opened (.colon members key)
  | colon {opened : List Open} {members : List (Option String × Document)} {key : Option String} :
      Takes opened (.colon members key) .colon (.object members key :: opened) .value
  | nextItem {outer : List Open} {items : List Document} {d : Document} :
      Takes (.list items :: outer) (.after d) .comma (.list (d :: items) :: outer) .value
  | endList {outer : List Open} {items : List Document} {d : Document} :
      Takes (.list items :: outer) (.after d) .closeList outer
        (.after (list (d :: items).reverse true))
  | nextMember {outer : List Open} {members : List (Option String × Document)}
      {key : Option String} {d : Document} :
      Takes (.object members key :: outer) (.after d) .comma outer (.key ((key, d) :: members))
  | endObject {outer : List Open} {members : List (Option String × Document)}
      {key : Option String} {d : Document} :
      Takes (.object members key :: outer) (.after d) .closeObject outer
        (.after (object ((key, d) :: members).reverse true))

theorem Starts.takes
    {opened inner opened' : List Open} {expected expected' : Expected} {l : Lexeme}
    (hstart : Starts opened expected inner)
    (h : start? inner l = some (expected', opened')) :
    Takes opened expected l opened' expected' := by
  unfold start? at h
  split at h
  · obtain ⟨rfl, rfl⟩ := Prod.mk.inj (Option.some.inj h)
    exact .openList hstart
  · obtain ⟨rfl, rfl⟩ := Prod.mk.inj (Option.some.inj h)
    exact .openObject hstart
  · obtain ⟨d, hd, heq⟩ := Option.map_eq_some_iff.mp h
    obtain ⟨rfl, rfl⟩ := Prod.mk.inj heq
    exact .scalar hstart hd

theorem takes_of_advance?
    {opened opened' : List Open} {expected expected' : Expected} {l : Lexeme}
    (h : advance? opened expected l = some (expected', opened')) :
    Takes opened expected l opened' expected' := by
  unfold advance? at h
  split at h
  · exact Starts.value.takes h
  · obtain ⟨rfl, rfl⟩ := Prod.mk.inj (Option.some.inj h)
    exact .emptyList
  · exact Starts.firstItem.takes h
  · obtain ⟨rfl, rfl⟩ := Prod.mk.inj (Option.some.inj h)
    exact .emptyObject
  · obtain ⟨rfl, rfl⟩ := Prod.mk.inj (Option.some.inj h)
    exact .firstKey
  · simp at h
  · obtain ⟨rfl, rfl⟩ := Prod.mk.inj (Option.some.inj h)
    exact .key
  · simp at h
  · obtain ⟨rfl, rfl⟩ := Prod.mk.inj (Option.some.inj h)
    exact .colon
  · simp at h
  · split at h
    · obtain ⟨rfl, rfl⟩ := Prod.mk.inj (Option.some.inj h)
      exact .nextItem
    · obtain ⟨rfl, rfl⟩ := Prod.mk.inj (Option.some.inj h)
      exact .endList
    · obtain ⟨rfl, rfl⟩ := Prod.mk.inj (Option.some.inj h)
      exact .nextMember
    · obtain ⟨rfl, rfl⟩ := Prod.mk.inj (Option.some.inj h)
      exact .endObject
    · simp at h

theorem nesting_of_ofLexeme?
    {l : Lexeme} {d : Document}
    (h : ofLexeme? l = some d) :
    d.nesting = 0 ∧ ∀ opened, openedAfter opened l = opened := by
  cases l <;> simp only [ofLexeme?, Option.some.injEq, reduceCtorEq] at h
  all_goals
    subst h
    exact ⟨rfl, fun _ => rfl⟩

theorem Starts.openCount_eq
    {opened inner : List Open} {expected : Expected}
    (h : Starts opened expected inner) :
    openCount opened expected = inner.length := by
  cases h <;> rfl

theorem Starts.nesting_eq
    {opened inner : List Open} {expected : Expected}
    (h : Starts opened expected inner) :
    (abandonAt opened expected).nesting = max inner.length (held inner) := by
  cases h with
  | value => simp [abandonAt, nesting_abandon, nesting]
  | firstItem =>
      simp only [abandonAt, nesting_abandon, nesting, itemsNesting, held, List.length_cons]
      omega

/-- A lexeme opens or closes what it says. -/
theorem Takes.openCount_eq
    {opened opened' : List Open} {expected expected' : Expected} {l : Lexeme}
    (h : Takes opened expected l opened' expected') :
    openCount opened' expected' = openedAfter (openCount opened expected) l := by
  cases h with
  | scalar hstart hl =>
      rw [hstart.openCount_eq, (nesting_of_ofLexeme? hl).2]
      rfl
  | openList hstart =>
      rw [hstart.openCount_eq]
      rfl
  | openObject hstart =>
      rw [hstart.openCount_eq]
      rfl
  | _ => rfl

/-- What has been read nests more deeply only by a container that has just been opened. -/
theorem Takes.nesting_eq
    {opened opened' : List Open} {expected expected' : Expected} {l : Lexeme}
    (h : Takes opened expected l opened' expected') :
    (abandonAt opened' expected').nesting =
      max (abandonAt opened expected).nesting (openCount opened' expected') := by
  cases h with
  | scalar hstart hl =>
      rw [hstart.nesting_eq, abandonAt, nesting_abandon, (nesting_of_ofLexeme? hl).1, openCount]
      omega
  | openList hstart =>
      rw [hstart.nesting_eq, abandonAt, nesting_abandon, nesting, itemsNesting, openCount]
      omega
  | openObject hstart =>
      rw [hstart.nesting_eq, abandonAt, nesting_abandon, nesting, membersNesting, openCount]
      omega
  | _ =>
      simp only [abandonAt, nesting_abandon, nesting, itemsNesting_reverse, membersNesting_reverse,
        itemsNesting, membersNesting, held, openCount, List.length_cons]
      omega

theorem openCount_le_nesting
    (opened : List Open) (expected : Expected) :
    openCount opened expected ≤ (abandonAt opened expected).nesting := by
  cases expected <;> simp only [openCount, abandonAt, nesting_abandon, nesting] <;> omega

/-! ## What a whole text does -/

/-- A moment of reading: the open containers, what is allowed next, and the lexemes that are left. -/
structure Moment where
  opened : List Open
  expected : Expected
  left : List Lexeme

namespace Moment

/-- The moment at which a text starts to be read. -/
def start (s : String) : Moment :=
  ⟨[], .value, Lexeme.ofText s⟩

/-- What is read from the moment on, and the lexemes after it. -/
def read (m : Moment) : Document × List Lexeme :=
  Document.read m.opened m.expected m.left

/-- The number of containers that are open at the moment. -/
def openCount (m : Moment) : Nat :=
  Document.openCount m.opened m.expected

/-- What has been read up to the moment. -/
def soFar (m : Moment) : Document :=
  abandonAt m.opened m.expected

/-- The nesting that is measured on what has been read and what is left. -/
def total (m : Moment) : Nat :=
  lexemesNesting m.openCount m.soFar.nesting m.left

/-- One allowed lexeme is taken. -/
inductive Step : Moment → Moment → Prop
  | take {opened opened' : List Open} {expected expected' : Expected} {l : Lexeme}
      {left : List Lexeme} (h : advance? opened expected l = some (expected', opened')) :
      Step ⟨opened, expected, l :: left⟩ ⟨opened', expected', left⟩

/-- Reading comes from one moment to another. -/
abbrev Reaches : Moment → Moment → Prop :=
  Relation.ReflTransGen Step

variable {m m' : Moment}

theorem Step.read_eq (h : Step m m') : m'.read = m.read := by
  cases h with
  | take h => exact (read_step h _).symm

/-- One lexeme moves from what is left to what has been read, and the sum stays the same. -/
theorem Step.total_eq (h : Step m m') : m'.total = m.total := by
  cases h with
  | @take opened opened' expected expected' l left h =>
      have htakes := takes_of_advance? h
      have hle := openCount_le_nesting opened expected
      simp only [total, openCount, soFar]
      rw [lexemesNesting_cons hle, htakes.nesting_eq, htakes.openCount_eq]

theorem Reaches.read_eq (h : Reaches m m') : m'.read = m.read := by
  induction h with
  | refl => rfl
  | tail _ hstep ih => rw [hstep.read_eq, ih]

/-- The sum is the same at every moment that is reached. -/
theorem Reaches.total_eq (h : Reaches m m') : m'.total = m.total := by
  induction h with
  | refl => rfl
  | tail _ hstep ih => rw [hstep.total_eq, ih]

theorem nesting_soFar_le_total (m : Moment) : m.soFar.nesting ≤ m.total :=
  le_lexemesNesting _ _ _

theorem openCount_le_total (m : Moment) : m.openCount ≤ m.total :=
  (openCount_le_nesting m.opened m.expected).trans m.nesting_soFar_le_total

/-- Reading comes to a moment at which no lexeme is taken, and what has been read by then is the
result. -/
theorem exists_last (m : Moment) :
    ∃ last, m.Reaches last ∧ (∀ next, ¬ last.Step next) ∧ m.read.1 = last.soFar := by
  obtain ⟨opened, expected, left⟩ := m
  induction left generalizing opened expected with
  | nil =>
      refine ⟨_, .refl, nofun, ?_⟩
      rw [read, soFar, Document.read.eq_def]
      simp only
      split <;> rfl
  | cons l left ih =>
      cases h : advance? opened expected l with
      | some next =>
          obtain ⟨last, hreaches, hlast, hread⟩ := ih next.2 next.1
          have hstep : Step ⟨opened, expected, l :: left⟩ ⟨next.2, next.1, left⟩ := .take h
          exact ⟨last, .head hstep hreaches, hlast, hstep.read_eq ▸ hread⟩
      | none =>
          refine ⟨_, .refl, ?_, ?_⟩
          · rintro next ⟨hnext⟩
            simp [h] at hnext
          · rw [read, soFar, Document.read.eq_def]
            simp only
            split
            · rfl
            · simp only [h]

theorem total_start_le (s : String) : (start s).total ≤ textNesting s :=
  lexemesNesting_cut_le s.toList (Nat.le_refl 0)

/-- However a text goes on, no more containers are open than its nesting says. -/
theorem openCount_le
    {s : String}
    (h : (start s).Reaches m) :
    m.openCount ≤ textNesting s :=
  calc m.openCount ≤ m.total := m.openCount_le_total
    _ = (start s).total := h.total_eq
    _ ≤ textNesting s := total_start_le s

end Moment

/-- What is read of a text nests no more deeply than the text. -/
theorem nesting_ofText_le (s : String) :
    (Document.ofText s).1.nesting ≤ textNesting s := by
  obtain ⟨last, hreaches, -, hread⟩ := (Moment.start s).exists_last
  calc (Document.ofText s).1.nesting = last.soFar.nesting := congrArg nesting hread
    _ ≤ last.total := last.nesting_soFar_le_total
    _ = (Moment.start s).total := hreaches.total_eq
    _ ≤ textNesting s := Moment.total_start_le s

end Document
end Json
end Eligibility
