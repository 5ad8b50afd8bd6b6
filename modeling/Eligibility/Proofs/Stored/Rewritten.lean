import Eligibility.Proofs.Json.Decoded
import Eligibility.Proofs.Stored.RoundTrip
import Mathlib.Data.List.Nodup

/-!
# Rewritten documents

A store may give back another document than it was given: with the members of a node in another
order, with null for the parts that the node does not use, with members of its own under other keys,
and with white space between the lexemes.  None of this is seen when the formula is loaded.

**Results.**
* `read?_of_rearranged`: a node is read from the members for the parts that it uses;
* `read?_of_rewritten`: a rewritten document is read as the node of the formula;
* `Rewritten.decoded`: the value of a rewritten document is a rewritten document;
* `load_rewritten`: a rewritten document loads as the formula, as a text and as a value.
-/

namespace Eligibility
namespace Stored

open Json
open Value (ofDocument? ofMembers? membersToDocuments sortMembers keyed)

namespace Part

/-- The key of a part. -/
def key : Part → String
  | kind => "type"
  | connective => "operator"
  | value => "value"
  | left => "left"
  | right => "right"

theorem ofKey?_key (part : Part) : ofKey? part.key = some part := by
  cases part <;> decide

theorem ofKey?_eq_none_iff
    {key : String} :
    ofKey? key = none ↔ ∀ part : Part, key ≠ part.key := by
  constructor
  · rintro h part rfl
    simp [ofKey?_key] at h
  · intro h
    have hkind : key ≠ "type" := h kind
    have hconnective : key ≠ "operator" := h connective
    have hvalue : key ≠ "value" := h value
    have hleft : key ≠ "left" := h left
    have hright : key ≠ "right" := h right
    simp [ofKey?, hkind, hconnective, hvalue, hleft, hright]

theorem key_injective : Function.Injective key := by
  intro first second h
  have hsome : some first = some second := by rw [← ofKey?_key, h, ofKey?_key]
  exact Option.some.inj hsome

/-- The member for a part. -/
def member (part : Part) (d : Document) : Option String × Document :=
  (some part.key, d)

end Part

/-- A member that is for no part of a node. -/
def Extra (m : Option String × Document) : Prop :=
  ∃ key, m.1 = some key ∧ (∀ part : Part, key ≠ part.key) ∧ m.2.Complete

/-- The members are those for the parts and some that are for no part, in any order. -/
def Consists (parts : List (Part × Document)) (members : List (Option String × Document)) : Prop :=
  ∃ extras, (∀ m ∈ extras, Extra m) ∧
    members.Perm ((parts.map fun m => m.1.member m.2) ++ extras)

/-- The members are those for the parts that a node uses, null for some of those that it does not
use, and some that are for no part, in any order. -/
def Rearranged (parts : List (Part × Document)) (unused : List Part)
    (members : List (Option String × Document)) : Prop :=
  ∃ nulls : List Part, nulls.Sublist unused ∧
    Consists (parts ++ nulls.map fun part => (part, .null)) members

/-- The document is the stored form of the formula up to what stores may do to the members of each
node. -/
inductive Rewritten : Formula → Document → Prop
  | leaf {c : Condition} {members : List (Option String × Document)}
      (hmembers : Rearranged
        [(.kind, .text (some Kind.leaf.name)), (.value, .text (some c.shown))]
        [.connective, .left, .right] members) :
      Rewritten (.leaf c) (.object members true)
  | join {k : Connective} {left right : Formula} {first second : Document}
      {members : List (Option String × Document)}
      (hleft : Rewritten left first)
      (hright : Rewritten right second)
      (hmembers : Rearranged
        [(.kind, .text (some Kind.inner.name)), (.connective, .text (some k.word)),
          (.left, first), (.right, second)]
        [.value] members) :
      Rewritten (.join k left right) (.object members true)

/-- The form that a formula is stored in is one of its rewritten forms. -/
theorem rewritten_toDocument (f : Formula) : Rewritten f f.toValue.toDocument := by
  induction f with
  | leaf c =>
      exact .leaf ⟨[], List.nil_sublist _, [], by simp, .refl _⟩
  | join k left right ihl ihr =>
      exact .join ihl ihr ⟨[], List.nil_sublist _, [], by simp, .refl _⟩

/-! ## Reading the parts -/

namespace Parts

/-- Whether a part has not been read. -/
def Lacks (p : Parts) : Part → Prop
  | .kind => p.kind = none
  | .connective => p.connective = none
  | .value => p.value = none
  | .left => p.left = none
  | .right => p.right = none

/-- A part that is null counts as read, but leaves the node as it is. -/
theorem fill?_null
    {p : Parts} {part : Part}
    (hpart : part ≠ .kind)
    (h : p.Lacks part)
    (child : Unit → Option Node) :
    ∃ q, p.fill? part (Document.null.surface none) child = some q ∧ q.node? = p.node? ∧
      ∀ other, other ≠ part → p.Lacks other → q.Lacks other := by
  obtain ⟨kind, connective, value, left, right⟩ := p
  cases part with
  | kind => exact absurd rfl hpart
  | connective | value | left | right =>
      obtain rfl := h
      refine ⟨_, rfl, rfl, ?_⟩
      intro other hother hlacks
      cases other <;> first | exact hlacks | exact absurd rfl hother

end Parts

namespace Node

theorem readMembers?_part
    (p : Parts) (part : Part) (d : Document) (rest : List (Option String × Document)) :
    readMembers? none p true (part.member d :: rest) =
      (p.fill? part (d.surface none) fun _ => read? none d).bind fun q =>
        readMembers? none q true rest := by
  rw [readMembers?_cons, readMember?, Part.member, Option.bind_some, Part.ofKey?_key]

theorem readMembers?_append
    (p : Parts) (first second : List (Option String × Document)) :
    readMembers? none p true (first ++ second) =
      (readMembers? none p true first).bind fun q => readMembers? none q true second := by
  induction first generalizing p with
  | nil => rfl
  | cons m first ih =>
      rw [List.cons_append, readMembers?_cons, readMembers?_cons, Option.bind_assoc]
      simp only [ih]

theorem readMembers?_extras
    {extras : List (Option String × Document)}
    (h : ∀ m ∈ extras, Extra m)
    (p : Parts) :
    readMembers? none p true extras = some p := by
  induction extras with
  | nil => rfl
  | cons m extras ih =>
      obtain ⟨⟨key, hkey, hother, -⟩, hmore⟩ := List.forall_mem_cons.mp h
      have hskip : readMember? none p m = some p := by
        rw [readMember?, hkey, Option.bind_some, Part.ofKey?_eq_none_iff.mpr hother]
      rw [readMembers?_cons, hskip, Option.bind_some]
      exact ih hmore

theorem readMembers?_of_consists
    {parts : List (Part × Document)} {members : List (Option String × Document)}
    (h : Consists parts members)
    (p : Parts) :
    readMembers? none p true members =
      readMembers? none p true (parts.map fun m => m.1.member m.2) := by
  obtain ⟨extras, hextras, hperm⟩ := h
  rw [readMembers?_perm hperm, readMembers?_append]
  simp only [readMembers?_extras hextras, Option.bind_fun_some]

theorem readMembers?_nulls
    {p : Parts} {unused : List Part}
    (hnodup : unused.Nodup)
    (h : ∀ part ∈ unused, part ≠ .kind ∧ p.Lacks part) :
    ∃ q, readMembers? none p true (unused.map fun part => part.member .null) = some q ∧
      q.node? = p.node? := by
  induction unused generalizing p with
  | nil => exact ⟨p, rfl, rfl⟩
  | cons part unused ih =>
      obtain ⟨⟨hkind, hlacks⟩, hmore⟩ := List.forall_mem_cons.mp h
      obtain ⟨hpart, hnodup⟩ := List.nodup_cons.mp hnodup
      obtain ⟨between, hfill, hnode, hothers⟩ := Parts.fill?_null hkind hlacks fun _ => read? none .null
      have hrest : ∀ other ∈ unused, other ≠ .kind ∧ between.Lacks other := by
        intro other hother
        obtain ⟨hne, hlacks⟩ := hmore other hother
        exact ⟨hne, hothers other (fun heq => hpart (heq ▸ hother)) hlacks⟩
      obtain ⟨q, hread, hq⟩ := ih hnodup hrest
      refine ⟨q, ?_, hq.trans hnode⟩
      rw [List.map_cons, readMembers?_part, hfill, Option.bind_some, hread]

/-- A node is read from the members for the parts that it uses. -/
theorem read?_of_rearranged
    {parts : List (Part × Document)} {unused : List Part}
    {members : List (Option String × Document)} {p : Parts}
    (h : Rearranged parts unused members)
    (hread : readMembers? none Parts.empty true (parts.map fun m => m.1.member m.2) = some p)
    (hnodup : unused.Nodup)
    (hunused : ∀ part ∈ unused, part ≠ .kind ∧ p.Lacks part) :
    read? none (.object members true) = p.node? := by
  obtain ⟨nulls, hsub, hmembers⟩ := h
  obtain ⟨q, hnulls, hnode⟩ := readMembers?_nulls (hnodup.sublist hsub) fun part hpart =>
    hunused part (hsub.mem hpart)
  rw [read?]
  simp only [enter?]
  rw [readMembers?_of_consists hmembers, List.map_append, List.map_map, readMembers?_append, hread,
    Option.bind_some]
  refine (congrArg (Option.bind · Parts.node?) hnulls).trans ?_
  rw [Option.bind_some, hnode]

/-- A rewritten document is read as the node of the formula. -/
theorem read?_of_rewritten
    {f : Formula} {d : Document}
    (h : Rewritten f d) :
    read? none d = some (ofFormula f) := by
  induction h with
  | @leaf c members hmembers =>
      have hread : readMembers? none Parts.empty true
          ([(.kind, .text (some Kind.leaf.name)), (.value, .text (some c.shown))].map
            fun m : Part × Document => m.1.member m.2) =
          some ⟨some .leaf, none, some (some c.shown), none, none⟩ := by
        rw [List.map_cons, List.map_cons, List.map_nil, readMembers?_part, Parts.fill?_kind rfl,
          Option.bind_some, readMembers?_part, Parts.fill?_value rfl, Option.bind_some]
        rfl
      rw [read?_of_rearranged hmembers hread (by decide) ?_]
      · rfl
      · intro part hpart
        simp only [List.mem_cons, List.not_mem_nil, or_false] at hpart
        rcases hpart with rfl | rfl | rfl <;> exact ⟨by decide, rfl⟩
  | @join k left right first second members hleft hright hmembers ihl ihr =>
      have hread : readMembers? none Parts.empty true
          ([(.kind, .text (some Kind.inner.name)), (.connective, .text (some k.word)),
            (.left, first), (.right, second)].map fun m : Part × Document => m.1.member m.2) =
          some ⟨some .inner, some (some k), none, some (some (ofFormula left)),
            some (some (ofFormula right))⟩ := by
        rw [List.map_cons, List.map_cons, List.map_cons, List.map_cons, List.map_nil,
          readMembers?_part, Parts.fill?_kind rfl, Option.bind_some, readMembers?_part,
          Parts.fill?_connective rfl, Option.bind_some, readMembers?_part,
          Parts.fill?_left rfl ihl, Option.bind_some, readMembers?_part,
          Parts.fill?_right rfl ihr, Option.bind_some]
        rfl
      rw [read?_of_rearranged hmembers hread (by decide) ?_]
      · rfl
      · intro part hpart
        obtain rfl := List.mem_singleton.mp hpart
        exact ⟨by decide, rfl⟩

end Node

/-! ## Values -/

/-- Whether a key is that of a part of a node. -/
def isPart (key : String) : Bool :=
  (Part.ofKey? key).isSome

theorem isPart_key (part : Part) : isPart part.key = true := by
  rw [isPart, Part.ofKey?_key]
  rfl

theorem isPart_eq_false_iff
    {key : String} :
    isPart key = false ↔ ∀ part : Part, key ≠ part.key := by
  rw [isPart, Option.isSome_eq_false_iff, Option.isNone_iff_eq_none, Part.ofKey?_eq_none_iff]

theorem Consists.filter_perm
    {parts : List (Part × Document)} {members : List (Option String × Document)}
    (h : Consists parts members) :
    (members.filter fun m => m.1.any isPart).Perm (parts.map fun m => m.1.member m.2) := by
  obtain ⟨extras, hextras, hperm⟩ := h
  refine (hperm.filter _).trans (.of_eq ?_)
  have hparts : (parts.map fun m => m.1.member m.2).filter (fun m => m.1.any isPart) =
      parts.map fun m => m.1.member m.2 := by
    refine List.filter_eq_self.mpr ?_
    intro m hm
    obtain ⟨part, -, rfl⟩ := List.mem_map.mp hm
    exact isPart_key part.1
  have hnone : extras.filter (fun m => m.1.any isPart) = [] := by
    refine List.filter_eq_nil_iff.mpr ?_
    intro m hm
    obtain ⟨key, hkey, hother, -⟩ := hextras m hm
    rw [hkey, Option.any_some, isPart_eq_false_iff.mpr hother]
    exact Bool.false_ne_true
  rw [List.filter_append, hparts, hnone, List.append_nil]

theorem membersToDocuments_keyed
    (p : String → Bool) (ms : List (String × Value)) :
    membersToDocuments (keyed p ms) = (membersToDocuments ms).filter fun m => m.1.any p := by
  rw [Node.membersToDocuments_eq_map, Node.membersToDocuments_eq_map, List.filter_map]
  rfl

/-- The members for parts have different keys, so that a value keeps all of them; of the others it
may drop some. -/
theorem Consists.decoded
    {parts : List (Part × Document)} {members : List (Option String × Document)}
    {ms : List (String × Value)}
    (h : Consists parts members)
    (hparts : (parts.map Prod.fst).Nodup)
    (hms : ofMembers? members = some ms) :
    Consists (parts.map fun m => (m.1, m.2.decoded)) (membersToDocuments (sortMembers ms)) := by
  have hkept : (membersToDocuments (keyed isPart ms)).Perm
      ((parts.map fun m => (m.1, m.2.decoded)).map fun m => m.1.member m.2) := by
    have hdecoded := h.filter_perm.map fun m => (m.1, m.2.decoded)
    rw [membersToDocuments_keyed, Document.membersToDocuments_of_ofMembers? hms, List.filter_map,
      List.map_map]
    rwa [List.map_map] at hdecoded
  have hkeys : ((keyed isPart ms).map Prod.fst).Nodup := by
    have hfirst : (((keyed isPart ms).map Prod.fst).map some).Perm
        ((parts.map Prod.fst).map fun part => some part.key) := by
      have hboth := hkept.map Prod.fst
      rw [Node.membersToDocuments_eq_map] at hboth
      simp only [List.map_map] at hboth ⊢
      exact hboth
    have hdistinct : ((parts.map Prod.fst).map fun part => some part.key).Nodup :=
      hparts.map fun _ _ heq => Part.key_injective (Option.some.inj heq)
    exact (hfirst.nodup_iff.mpr hdistinct).of_map some
  refine ⟨membersToDocuments (keyed (fun key => !isPart key) (sortMembers ms)), ?_, ?_⟩
  · intro m hm
    rw [Node.membersToDocuments_eq_map] at hm
    obtain ⟨⟨key, v⟩, hmem, rfl⟩ := List.mem_map.mp hm
    have hkey : isPart key = false := by simpa using (List.mem_filter.mp hmem).2
    exact ⟨key, rfl, isPart_eq_false_iff.mp hkey, v.complete_toDocument⟩
  · have hsplit : (sortMembers ms).Perm
        (keyed isPart (sortMembers ms) ++ keyed (fun key => !isPart key) (sortMembers ms)) :=
      (List.filter_append_perm _ _).symm
    refine (Node.membersToDocuments_perm hsplit).trans ?_
    rw [Node.membersToDocuments_eq_map, List.map_append, ← Node.membersToDocuments_eq_map,
      ← Node.membersToDocuments_eq_map]
    exact ((Node.membersToDocuments_perm (Value.keyed_sortMembers_perm isPart hkeys)).trans
      hkept).append_right _

/-- Of an object with rearranged members, the value has rearranged members as well. -/
theorem Rearranged.decoded
    {parts : List (Part × Document)} {unused : List Part}
    {members : List (Option String × Document)} {ms : List (String × Value)}
    (h : Rearranged parts unused members)
    (hparts : (parts.map Prod.fst ++ unused).Nodup)
    (hms : ofMembers? members = some ms) :
    Rearranged (parts.map fun m => (m.1, m.2.decoded)) unused
      (membersToDocuments (sortMembers ms)) := by
  obtain ⟨nulls, hsub, hmembers⟩ := h
  have hkeys : ((parts ++ nulls.map fun part => (part, Document.null)).map Prod.fst).Nodup := by
    have hall := hparts.sublist (hsub.append_left (parts.map Prod.fst))
    simpa [Function.comp_def] using hall
  have hdecoded := hmembers.decoded hkeys hms
  rw [List.map_append, List.map_map] at hdecoded
  exact ⟨nulls, hsub, hdecoded⟩

theorem Rearranged.complete
    {parts : List (Part × Document)} {unused : List Part}
    {members : List (Option String × Document)}
    (h : Rearranged parts unused members)
    (hparts : ∀ m ∈ parts, m.2.Complete) :
    (Document.object members true).Complete := by
  obtain ⟨nulls, -, extras, hextras, hperm⟩ := h
  refine ⟨rfl, Document.membersComplete_iff.mpr ?_⟩
  intro m hm
  have hm := hperm.mem_iff.mp hm
  rw [List.map_append, List.mem_append, List.mem_append] at hm
  rcases hm with (hm | hm) | hm
  · obtain ⟨part, hpart, rfl⟩ := List.mem_map.mp hm
    exact hparts part hpart
  · obtain ⟨part, hpart, rfl⟩ := List.mem_map.mp hm
    obtain ⟨other, -, rfl⟩ := List.mem_map.mp hpart
    trivial
  · obtain ⟨key, -, -, hcomplete⟩ := hextras m hm
    exact hcomplete

theorem Rearranged.mem
    {parts : List (Part × Document)} {unused : List Part}
    {members : List (Option String × Document)}
    (h : Rearranged parts unused members)
    {part : Part} {d : Document} (hpart : (part, d) ∈ parts) :
    part.member d ∈ members := by
  obtain ⟨nulls, -, extras, -, hperm⟩ := h
  refine hperm.mem_iff.mpr (List.mem_append_left _ ?_)
  exact List.mem_map_of_mem (f := fun m : Part × Document => m.1.member m.2)
    (List.mem_append_left _ hpart)

namespace Rewritten

/-- The value of a rewritten document is a rewritten document. -/
theorem decoded
    {f : Formula} {d : Document} {v : Value}
    (h : Rewritten f d)
    (hv : ofDocument? d = some v) :
    Rewritten f v.toDocument := by
  induction h generalizing v with
  | leaf hmembers =>
      obtain ⟨ms, hms, rfl⟩ := Document.exists_of_object hv
      have hparts : [Part.kind, .value, .connective, .left, .right].Nodup := by decide
      exact .leaf (hmembers.decoded hparts hms)
  | @join k left right first second members hleft hright hmembers ihl ihr =>
      obtain ⟨ms, hms, rfl⟩ := Document.exists_of_object hv
      have hfirst : Part.left.member first ∈ members := hmembers.mem (by simp)
      have hsecond : Part.right.member second ∈ members := hmembers.mem (by simp)
      obtain ⟨w, hw⟩ : ∃ w, ofDocument? first = some w := Document.exists_value_of_mem hms hfirst
      obtain ⟨x, hx⟩ : ∃ x, ofDocument? second = some x := Document.exists_value_of_mem hms hsecond
      have hparts : [Part.kind, .connective, .left, .right, .value].Nodup := by decide
      have hdecoded := hmembers.decoded hparts hms
      rw [List.map_cons, List.map_cons, List.map_cons, List.map_cons, List.map_nil,
        Document.decoded_eq hw, Document.decoded_eq hx] at hdecoded
      exact .join (ihl hw) (ihr hx) hdecoded

theorem complete
    {f : Formula} {d : Document}
    (h : Rewritten f d) :
    d.Complete := by
  induction h with
  | leaf h => exact h.complete (by simp [Document.Complete])
  | join hleft hright h ihl ihr => exact h.complete (by simp [Document.Complete, ihl, ihr])

theorem depth_le_nesting
    {f : Formula} {d : Document}
    (h : Rewritten f d) :
    f.depth ≤ d.nesting := by
  induction h with
  | leaf h =>
      rw [Formula.depth_leaf, Document.nesting]
      omega
  | @join k left right first second members hleft hright h ihl ihr =>
      have hfirst : Part.left.member first ∈ members := h.mem (by simp)
      have hsecond : Part.right.member second ∈ members := h.mem (by simp)
      have hleft : first.nesting ≤ _ := Document.nesting_le_of_mem hfirst
      have hright : second.nesting ≤ _ := Document.nesting_le_of_mem hsecond
      rw [Formula.depth_join, Document.nesting]
      omega

end Rewritten

end Stored

namespace Formula

open Json Stored

/-- **Rewritten documents.**  A document that a store may have made of a formula loads as the
formula, as a text laid out in any way and as a value.  The document has a value if its numbers are
in range and its texts whole. -/
theorem load_rewritten
    {f : Formula} {d : Document} {s : String}
    (hconditions : ∀ c ∈ f.conditions, c.check = .ok c)
    (hrewritten : Rewritten f d)
    (hlaid : Lexeme.Laid d.lexemes s.toList)
    (hnesting : d.nesting ≤ maxDepth) :
    ofJson s = .ok f ∧
      (∀ v, Value.ofText? s = some v → ofValue v = .ok f) ∧
      ((∃ v, Value.ofText? s = some v) ↔ d.Whole) := by
  have hf := writable_of_check hconditions
  have htext : Document.ofText s = (d, []) := Document.ofText_of_laid hrewritten.complete hlaid
  have hvalue : Value.ofText? s = Value.ofDocument? d := by
    rw [Value.ofText?, htext]
  have hload {e : Document} (h : Rewritten f e) (he : e.nesting ≤ maxDepth) :
      checkNesting e.nesting maxDepth = .ok () ∧
        ofNode? (Node.read? none e) = .ok f := by
    refine ⟨checkNesting_eq_ok he, ?_⟩
    rw [Node.read?_of_rewritten h]
    exact toFormula_ofFormula hf (h.depth_le_nesting.trans he)
  refine ⟨?_, ?_, ?_⟩
  · obtain ⟨hcheck, hread⟩ := hload hrewritten hnesting
    rw [ofJson, Document.textNesting_of_laid hlaid, hcheck, Node.ofJson?, htext]
    exact hread
  · intro v hv
    rw [hvalue] at hv
    have hle := Document.nesting_le_of_ofDocument? d hv
    rw [← Value.nesting_toDocument] at hle
    obtain ⟨hcheck, hread⟩ := hload (hrewritten.decoded hv) (hle.trans hnesting)
    rw [Value.nesting_toDocument] at hcheck
    rw [ofValue, hcheck, ← Node.read?_toDocument]
    exact hread
  · rw [hvalue, ← Document.isSome_ofDocument?_iff, Option.isSome_iff_exists]

/-- The members of every node come in reverse order, with members of the store before them. -/
theorem load_rewritten_reversed :
    ∃ s f, s = "\n\x7b \"right\": \x7b\"n\": [-1.50E+01, true, " ++
        "\"\\u007d\"], \"left\":null, \"value\": " ++ "\"b < 'y'\",\t\"type\":\"operand\"\x7d, " ++
        "\"left\":\x7b\"n\":null, \"n\":[], \"value\": " ++ "\"a = \\u0027x'\", \"type\":\"operand\"\x7d, " ++
        "\"operator\" : \"OR\", \"type\":\"operator\" \x7d\r\n" ∧
      f = join .or (leaf ⟨"a", .equal, .text "x"⟩) (leaf ⟨"b", .below, .text "y"⟩) ∧
      ofJson s = .ok f ∧
      ∃ v, Value.ofText? s = some v ∧ ofValue v = .ok f := by
  have hextra {d : Document} (hd : d.Complete) : Extra (some "n", d) := by
    refine ⟨"n", rfl, ?_, hd⟩
    intro part
    cases part <;> decide
  have hfirst : ∀ m ∈ [((some "n" : Option String), Document.list [] true), (some "n", .null)],
      Extra m :=
    List.forall_mem_cons.mpr ⟨hextra ⟨rfl, trivial⟩, List.forall_mem_singleton.mpr (hextra trivial)⟩
  have hsecond : ∀ m ∈ [((some "n" : Option String),
      Document.list [.number ⟨true, 1, [5, 0], some 1⟩, .bool true, .text (some "\x7d")] true)],
      Extra m :=
    List.forall_mem_singleton.mpr (hextra ⟨rfl, trivial, trivial, trivial, trivial⟩)
  have hleft := Rewritten.leaf (c := ⟨"a", .equal, .text "x"⟩)
    ⟨[], List.nil_sublist _, _, hfirst, List.reverse_perm _⟩
  have hright := Rewritten.leaf (c := ⟨"b", .below, .text "y"⟩)
    ⟨[.left], by decide, _, hsecond, List.reverse_perm _⟩
  have hboth := Rewritten.join (k := .or) hleft hright
    ⟨[], List.nil_sublist _, [], by simp, List.reverse_perm _⟩
  have hconditions : ∀ c ∈ (join .or (leaf ⟨"a", .equal, .text "x"⟩)
      (leaf ⟨"b", .below, .text "y"⟩)).conditions, c.check = .ok c := by
    simp only [conditions_join, conditions_leaf, List.cons_append, List.nil_append,
      List.forall_mem_cons, List.not_mem_nil, false_implies, implies_true, and_true]
    decide +kernel
  have hload {f : Formula} {d : Document} {s : String} (hf : ∀ c ∈ f.conditions, c.check = .ok c)
      (hd : Rewritten f d) (hs : Lexeme.ofText s = d.lexemes) (hvalid : .invalid ∉ d.lexemes)
      (hnesting : d.nesting ≤ maxDepth) (hvalue : (Value.ofDocument? d).isSome = true) :
      ofJson s = .ok f ∧ ∃ v, Value.ofText? s = some v ∧ ofValue v = .ok f := by
    obtain ⟨hjson, hall, hiff⟩ :=
      load_rewritten hf hd (Lexeme.laid_of_ofText hs hvalid) hnesting
    obtain ⟨v, hv⟩ := hiff.mpr (d.isSome_ofDocument?_iff.mp hvalue)
    exact ⟨hjson, v, hv, hall v hv⟩
  refine ⟨_, _, rfl, rfl, hload hconditions hboth ?_ (by decide +kernel) (by decide +kernel)
    (by decide +kernel)⟩
  simp only [Lexeme.ofText, String.toList_append]
  decide +kernel

end Formula
end Eligibility
