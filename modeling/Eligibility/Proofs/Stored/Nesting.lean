import Eligibility.Proofs.Json.OpenContainers
import Eligibility.Proofs.Stored.RoundTrip

/-!
# Nesting of stored formulas

In every form in which it is stored, a formula nests as deeply as it is deep, and a named rule one
level more.  So what is measured before a text or a value is read refuses what is too deep and nothing
else.

Readers may enter only as many containers inside one another as they are allowed.  An allowance for the
nesting of the text is as good as any other: what a reader makes of a text with another allowance, or
with none, it makes of it with this one.

**Results.**
* `nesting_measures_agree`: the nesting of values, of formulas and of named rules;
* `read?_of_admits`, `NamedRule.read_eq_of_admits`: allowances that make no difference;
* `reading_within_nesting`: a text is read with no more open containers than it nests deep;
* `usual_allowance_only_limits`: the usual allowance refuses nothing that it admits.
-/

namespace Eligibility

namespace Formula

open Json

/-- **Nesting and depth.**  A value and its text nest alike, whatever its texts and keys hold; a
formula nests as deeply as it is deep, as a text, as a value and as a value with its members in order,
and a named rule nests one level more. -/
theorem nesting_measures_agree :
    (∀ v : Value, textNesting v.write = v.nesting) ∧
      ∀ f : Formula,
        textNesting f.toJson = f.depth ∧
          f.toValue.nesting = f.depth ∧
          f.toValue.sorted.nesting = f.depth ∧
          ∀ name, textNesting (NamedRule.mk name f).toJson = f.depth + 1 ∧
            (NamedRule.mk name f).toValue.nesting = f.depth + 1 := by
  refine ⟨Value.textNesting_write, fun f => ⟨?_, nesting_toValue f, ?_, fun name => ?_⟩⟩
  · rw [toJson, Value.textNesting_write, nesting_toValue]
  · rw [Value.nesting_sorted _ f.distinct_toValue, nesting_toValue]
  · have hrule := NamedRule.textNesting_toJson ⟨name, f⟩
    refine ⟨hrule, ?_⟩
    rwa [NamedRule.toJson, Value.textNesting_write] at hrule

end Formula

/-! ## Allowances -/

namespace Json

/-- The allowance lets that many containers be entered inside one another. -/
def Admits (allowance : Allowance) (levels : Nat) : Prop :=
  ∀ n, allowance = some n → levels ≤ n

variable {a b : Allowance} {levels fewer : Nat}

theorem admits_none (levels : Nat) : Admits none levels :=
  nofun

theorem admits_some_iff
    {n : Nat} :
    Admits (some n) levels ↔ levels ≤ n :=
  ⟨fun h => h n rfl, fun h _ heq => Option.some.inj heq ▸ h⟩

theorem Admits.mono
    (h : Admits b levels)
    (hle : fewer ≤ levels) :
    Admits b fewer :=
  fun n hn => hle.trans (h n hn)

theorem Admits.enter
    (h : Admits b (levels + 1)) :
    ∃ inside, enter? b = some inside ∧ Admits inside levels := by
  match b with
  | none => exact ⟨none, rfl, admits_none levels⟩
  | some 0 => exact absurd (admits_some_iff.mp h) (by omega)
  | some (n + 1) =>
      have hle := admits_some_iff.mp h
      exact ⟨some n, rfl, admits_some_iff.mpr (by omega)⟩

section

variable {α β : Type} {x y : Option α} {z : β}

theorem map_eq_some_of_imp
    {f : α → β}
    (hxy : ∀ v, x = some v → y = some v)
    (h : x.map f = some z) :
    y.map f = some z := by
  obtain ⟨v, hv, hz⟩ := Option.map_eq_some_iff.mp h
  exact Option.map_eq_some_iff.mpr ⟨v, hxy v hv, hz⟩

theorem bind_eq_some_of_imp
    {f : α → Option β}
    (hxy : ∀ v, x = some v → y = some v)
    (h : x.bind f = some z) :
    y.bind f = some z := by
  obtain ⟨v, hv, hz⟩ := Option.bind_eq_some_iff.mp h
  exact Option.bind_eq_some_iff.mpr ⟨v, hxy v hv, hz⟩

end

namespace Document

variable {d : Document}

theorem name?_of_admits
    {name : String}
    (hb : Admits b d.nesting)
    (h : d.name? a = some name) :
    d.name? b = some name := by
  unfold name? at h
  split at h
  · exact h
  · obtain ⟨inside, -, rfl⟩ := Option.map_eq_some_iff.mp h
    have hone : Admits b (0 + 1) := hb
    obtain ⟨entered, henter, -⟩ := hone.enter
    rw [name?, henter]
    rfl
  · simp at h

theorem optional_mono
    {α : Type} {read read' : Unit → Option α} {x : Option α}
    (hread : ∀ y, read () = some y → read' () = some y)
    (h : (d.surface a).optional read = some x) :
    (d.surface b).optional read' = some x := by
  have hnull : (d.surface b).isNull = (d.surface a).isNull := rfl
  rw [Surface.optional] at h ⊢
  rw [hnull]
  by_cases hcase : (d.surface a).isNull = true
  · rwa [if_pos hcase] at h ⊢
  · rw [if_neg hcase] at h ⊢
    exact map_eq_some_of_imp hread h

end Document
end Json

/-! ## Nodes -/

namespace Stored

open Json

variable {a b : Allowance}

/-- What one allowance reads, every allowance that is large enough reads. -/
theorem Content.read?_of_admits
    {part : Part} {d : Document} {child child' : Unit → Option Node} {c : Content}
    (hb : Admits b d.nesting)
    (hchild : ∀ n, child () = some n → child' () = some n)
    (h : Content.read? part (d.surface a) child = some c) :
    Content.read? part (d.surface b) child' = some c := by
  have hname {α : Type} {ofName : String → Option α} (x : α)
      (h : (d.name? a).bind ofName = some x) : (d.name? b).bind ofName = some x :=
    bind_eq_some_of_imp (fun _ => Document.name?_of_admits hb) h
  cases part with
  | kind => exact map_eq_some_of_imp hname h
  | connective => exact map_eq_some_of_imp (fun _ => Document.optional_mono hname) h
  | value => exact h
  | left => exact map_eq_some_of_imp (fun _ => Document.optional_mono hchild) h
  | right => exact map_eq_some_of_imp (fun _ => Document.optional_mono hchild) h

theorem Parts.fill?_of_admits
    {p q : Parts} {part : Part} {d : Document} {child child' : Unit → Option Node}
    (hb : Admits b d.nesting)
    (hchild : ∀ n, child () = some n → child' () = some n)
    (h : p.fill? part (d.surface a) child = some q) :
    p.fill? part (d.surface b) child' = some q := by
  rw [fill?_eq] at h ⊢
  exact bind_eq_some_of_imp (fun _ => Content.read?_of_admits hb hchild) h

namespace Node

mutual

/-- What is read with one allowance is read with every allowance for the nesting of the document. -/
theorem read?_of_admits
    (d : Document) {a b : Allowance} (hb : Admits b d.nesting) {n : Node}
    (h : read? a d = some n) :
    read? b d = some n := by
  match d with
  | .null => simp [read?] at h
  | .bool _ => simp [read?] at h
  | .number _ => simp [read?] at h
  | .text _ => simp [read?] at h
  | .broken => simp [read?] at h
  | .object members closed =>
      obtain ⟨inside, hinside, hadmits⟩ := hb.enter
      rw [read?] at h
      rw [read?, hinside]
      split at h
      · exact bind_eq_some_of_imp (fun _ => readMembers?_of_admits members hadmits) h
      · simp at h
  | .list items closed =>
      obtain ⟨inside, hinside, hadmits⟩ := hb.enter
      rw [read?] at h
      rw [read?, hinside]
      split at h
      · exact bind_eq_some_of_imp (fun _ => readItems?_of_admits items hadmits) h
      · simp at h

theorem readMembers?_of_admits
    (members : List (Option String × Document)) {a b : Allowance}
    (hb : Admits b (Document.membersNesting members)) {p q : Parts} {closed : Bool}
    (h : readMembers? a p closed members = some q) :
    readMembers? b p closed members = some q := by
  match members with
  | [] => exact h
  | (none, d) :: members => simp [readMembers?] at h
  | (some key, d) :: members =>
      have hfirst : Admits b d.nesting := hb.mono (Nat.le_max_left _ _)
      have hmore : Admits b (Document.membersNesting members) := hb.mono (Nat.le_max_right _ _)
      rw [readMembers?] at h ⊢
      cases hkey : Part.ofKey? key with
      | none =>
          simp only [hkey] at h ⊢
          exact readMembers?_of_admits members hmore h
      | some part =>
          simp only [hkey] at h ⊢
          split at h
          · rename_i r hr
            rw [Parts.fill?_of_admits hfirst (fun _ => read?_of_admits d hfirst) hr]
            exact readMembers?_of_admits members hmore h
          · simp at h

theorem readItems?_of_admits
    (items : List Document) {a b : Allowance}
    (hb : Admits b (Document.itemsNesting items)) {p q : Parts} {position : Nat} {closed : Bool}
    (h : readItems? a p position closed items = some q) :
    readItems? b p position closed items = some q := by
  match items with
  | [] => exact h
  | d :: items =>
      have hfirst : Admits b d.nesting := hb.mono (Nat.le_max_left _ _)
      have hmore : Admits b (Document.itemsNesting items) := hb.mono (Nat.le_max_right _ _)
      rw [readItems?] at h ⊢
      cases hposition : Part.ofPosition? position with
      | none => simp [hposition] at h
      | some part =>
          simp only [hposition] at h ⊢
          split at h
          · rename_i r hr
            rw [Parts.fill?_of_admits hfirst (fun _ => read?_of_admits d hfirst) hr]
            exact readItems?_of_admits items hmore h
          · simp at h

end

theorem read?_eq_of_admits
    {d : Document}
    (ha : Admits a d.nesting)
    (hb : Admits b d.nesting) :
    read? a d = read? b d :=
  Option.ext fun _ => ⟨read?_of_admits d hb, read?_of_admits d ha⟩

theorem ofJson?_of_admits
    {s : String} {n : Node}
    (hb : Admits b (textNesting s))
    (h : ofJson? a s = some n) :
    ofJson? b s = some n := by
  have hadmits := hb.mono (Document.nesting_ofText_le s)
  unfold ofJson? at h ⊢
  split at h
  · rename_i d htext
    rw [htext] at hadmits
    exact read?_of_admits d hadmits h
  · simp at h

theorem ofJson?_eq_of_admits
    {s : String}
    (ha : Admits a (textNesting s))
    (hb : Admits b (textNesting s)) :
    ofJson? a s = ofJson? b s :=
  Option.ext fun _ => ⟨ofJson?_of_admits hb, ofJson?_of_admits ha⟩

end Node

theorem readFormula_eq_of_admits
    {d : Document}
    (ha : Admits a d.nesting)
    (hb : Admits b d.nesting)
    (inside : Bool) :
    readFormula inside a d = readFormula inside b d := by
  rw [readFormula, readFormula, Node.read?_eq_of_admits ha hb]

end Stored

/-! ## Formulas and named rules -/

namespace Formula

open Json Stored

theorem ofJson_eq_ok_iff
    {s : String} {f : Formula} :
    ofJson s = .ok f ↔ textNesting s ≤ maxDepth ∧ ofNode? (Node.ofJson? none s) = .ok f := by
  rw [← checkNesting_eq_ok_iff, ofJson]
  cases checkNesting (textNesting s) maxDepth <;> simp

theorem readFormula_eq_ok_iff
    (inside : Bool) {allowance : Allowance} {d : Document} {f : Formula} :
    readFormula inside allowance d = .ok f ↔ ofNode? (Node.read? allowance d) = .ok f := by
  rw [readFormula]
  cases Node.read? allowance d with
  | none => simp [ofNode?]
  | some n =>
      simp only [ofNode?]
      cases n.toFormula <;> simp

theorem ofJsonWithin_eq_ok_iff
    {allowance : Allowance} {s : String} {f : Formula} :
    ofJsonWithin allowance s = .ok f ↔ ofNode? (Node.ofJson? allowance s) = .ok f := by
  rw [ofJsonWithin, Node.ofJson?]
  cases Document.ofText s with
  | mk d rest =>
      cases rest with
      | nil =>
          simp only [List.isEmpty_nil, if_true]
          rw [← readFormula_eq_ok_iff false]
          cases readFormula false allowance d <;> simp
      | cons l rest =>
          simp only [ofNode?]
          cases readFormula false allowance d <;> simp

theorem ofJsonWithin_eq_of_admits
    {a b : Allowance} {s : String}
    (ha : Admits a (textNesting s))
    (hb : Admits b (textNesting s)) :
    ofJsonWithin a s = ofJsonWithin b s := by
  have hle := Document.nesting_ofText_le s
  have hread := readFormula_eq_of_admits (ha.mono hle) (hb.mono hle) false
  simp only [ofJsonWithin, hread]

end Formula

namespace NamedRule

open Json Stored

variable {a b : Allowance}

theorem readMembers_eq_of_admits
    {members : List (Option String × Document)}
    (ha : Admits a (Document.membersNesting members))
    (hb : Admits b (Document.membersNesting members))
    (closed : Bool) (name : Option String) (formula : Option Formula) :
    readMembers a closed name formula members = readMembers b closed name formula members := by
  induction members generalizing name formula with
  | nil => rfl
  | cons m members ih =>
      obtain ⟨key, d⟩ := m
      have hformula := readFormula_eq_of_admits (ha.mono (Nat.le_max_left _ _))
        (hb.mono (Nat.le_max_left _ _)) true
      have hmore := ih (ha.mono (Nat.le_max_right _ _)) (hb.mono (Nat.le_max_right _ _))
      simp only [readMembers, hformula, hmore]

theorem readItems_eq_of_admits
    {items : List Document}
    (ha : Admits a (Document.itemsNesting items))
    (hb : Admits b (Document.itemsNesting items))
    (closed : Bool) :
    readItems a closed items = readItems b closed items := by
  match items with
  | [] => rfl
  | [_] => rfl
  | first :: second :: more =>
      have hle : second.nesting ≤ Document.itemsNesting (first :: second :: more) :=
        (Nat.le_max_left _ _).trans (Nat.le_max_right _ _)
      have hformula := readFormula_eq_of_admits (ha.mono hle) (hb.mono hle) true
      simp only [readItems, hformula]

theorem read_eq_of_admits
    {d : Document}
    (ha : Admits a d.nesting)
    (hb : Admits b d.nesting) :
    read a d = read b d := by
  cases d with
  | object members closed =>
      obtain ⟨inside, henter, hinside⟩ := ha.enter
      obtain ⟨inside', henter', hinside'⟩ := hb.enter
      simp only [read, henter, henter']
      exact readMembers_eq_of_admits hinside hinside' closed none none
  | list items closed =>
      obtain ⟨inside, henter, hinside⟩ := ha.enter
      obtain ⟨inside', henter', hinside'⟩ := hb.enter
      simp only [read, henter, henter']
      exact readItems_eq_of_admits hinside hinside' closed
  | _ => rfl

theorem ofJsonWithin_eq_of_admits
    {s : String}
    (ha : Admits a (textNesting s))
    (hb : Admits b (textNesting s)) :
    ofJsonWithin a s = ofJsonWithin b s := by
  have hle := Document.nesting_ofText_le s
  have hread := read_eq_of_admits (ha.mono hle) (hb.mono hle)
  simp only [ofJsonWithin, hread]

end NamedRule

/-! ## Measuring before reading -/

namespace Json

open Document Stored

/-- **Reading within the measured nesting.**  Whether it spells a document or not, a text is read to
where reading ends with never more open containers than it nests deep.  Whoever may enter that many
reads nodes, formulas and named rules as someone without a limit does, faults included. -/
theorem reading_within_nesting
    {s : String} {n : Nat}
    (h : textNesting s ≤ n) :
    (∀ m, (Moment.start s).Reaches m → m.read = Document.ofText s ∧ m.openCount ≤ n) ∧
      (∃ last, (Moment.start s).Reaches last ∧ (∀ next, ¬ last.Step next) ∧
        (Document.ofText s).1 = last.soFar) ∧
      Node.ofJson? (some n) s = Node.ofJson? none s ∧
      Formula.ofJsonWithin (some n) s = Formula.ofJsonWithin none s ∧
      NamedRule.ofJsonWithin (some n) s = NamedRule.ofJsonWithin none s := by
  have hn : Admits (some n) (textNesting s) := admits_some_iff.mpr h
  have hnone : Admits none (textNesting s) := admits_none _
  refine ⟨fun m hm => ⟨hm.read_eq, ?_⟩, (Moment.start s).exists_last, ?_, ?_, ?_⟩
  · exact (Moment.openCount_le hm).trans h
  · exact Node.ofJson?_eq_of_admits hn hnone
  · exact Formula.ofJsonWithin_eq_of_admits hn hnone
  · exact NamedRule.ofJsonWithin_eq_of_admits hn hnone

/-- Brackets in a key, and a list that is closed twice. -/
theorem reading_within_nesting_malformed :
    ∃ s, s = "[\x7b\"a]\\\"[\":[1]]\x7d]" ∧ textNesting s ≤ 3 ∧
      (∀ m, (Moment.start s).Reaches m → m.read = Document.ofText s ∧ m.openCount ≤ 3) ∧
      Formula.ofJsonWithin (some 3) s = Formula.ofJsonWithin none s ∧
      NamedRule.ofJsonWithin (some 3) s = NamedRule.ofJsonWithin none s := by
  refine ⟨_, rfl, ?_⟩
  have hnesting : textNesting "[\x7b\"a]\\\"[\":[1]]\x7d]" ≤ 3 := by decide +kernel
  obtain ⟨hopen, -, -, hformula, hrule⟩ := reading_within_nesting hnesting
  exact ⟨hnesting, hopen, hformula, hrule⟩

end Json

namespace Formula

open Json Stored

/-- **The usual limit.**  What is loaded within the usual allowance is loaded without one, if the text
does not nest too deeply, and what is loaded without one is loaded within the usual allowance, if the
text nests no more deeply than that. -/
theorem usual_allowance_only_limits
    (s : String) (f : Formula) :
    (ofJsonWithin usualAllowance s = .ok f → textNesting s ≤ maxDepth → ofJson s = .ok f) ∧
      (ofJson s = .ok f → textNesting s ≤ 127 → ofJsonWithin usualAllowance s = .ok f) := by
  have hlift {a b : Allowance} (hb : Admits b (textNesting s))
      (h : ofNode? (Node.ofJson? a s) = .ok f) : ofNode? (Node.ofJson? b s) = .ok f := by
    obtain ⟨n, hn⟩ : ∃ n, Node.ofJson? a s = some n := by
      cases hread : Node.ofJson? a s with
      | none => simp [hread, ofNode?] at h
      | some n => exact ⟨n, rfl⟩
    rw [Node.ofJson?_of_admits hb hn]
    rwa [hn] at h
  rw [ofJson_eq_ok_iff, ofJsonWithin_eq_ok_iff]
  refine ⟨fun h hnesting => ⟨hnesting, hlift (admits_none _) h⟩, fun h hnesting => ?_⟩
  exact hlift (admits_some_iff.mpr hnesting) h.2

/-- Nodes in the form of lists, and a member for no part that nests more deeply than the nodes. -/
theorem usual_allowance_only_limits_lists :
    ∃ s f, s = "[\"operator\",\x7b\"OR\":null\x7d,null,\x7b\"n\":[[[]]],\"type\":\"operand\"," ++
        "\"value\":\"a = 'x'\"\x7d,[\"operand\",null,\"b < 'y'\"]]" ∧
      f = join .or (leaf ⟨"a", .equal, .text "x"⟩) (leaf ⟨"b", .below, .text "y"⟩) ∧
      textNesting s = 5 ∧
      ofJson s = .ok f ∧
      ofJsonWithin usualAllowance s = .ok f := by
  have hboth {s : String} {f : Formula} (hnesting : textNesting s = 5)
      (hwithin : ofJsonWithin usualAllowance s = .ok f) :
      textNesting s = 5 ∧ ofJson s = .ok f ∧ ofJsonWithin usualAllowance s = .ok f := by
    obtain ⟨hlift, hlimit⟩ := usual_allowance_only_limits s f
    have hjson : ofJson s = .ok f := hlift hwithin (by rw [hnesting]; decide)
    exact ⟨hnesting, hjson, hlimit hjson (by omega)⟩
  exact ⟨_, _, rfl, rfl, hboth (by decide +kernel) (by decide +kernel)⟩

end Formula
end Eligibility
