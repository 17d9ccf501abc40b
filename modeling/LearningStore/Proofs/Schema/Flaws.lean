import LearningStore.Proofs.Schema.Grammar
import LearningStore.Proofs.Xml.Nesting
import Mathlib.Data.List.Nodup

/-!
# Flaws of elements

What the rule of an element forbids about it, the elements that the grammar leads to from the root
of a file, and the elements that a pass over the file reads.  A flaw of such an element has a place
of its own, so a problem tells the element that it is about.
-/

namespace LearningStore.Schema

open LearningStore.Text
open LearningStore.Value
open LearningStore.Xml
open Relation

/-! ## Flaws -/

namespace ElementRule

/-- Whether a rule allows a child. -/
def allows (rule : ElementRule) (c : Element) : Bool :=
  rule.allowsChild c.name (c.tag.name.uri == some schemaNamespace)

/-- The names of the children among nodes that a rule allows. -/
def allowedNames (rule : ElementRule) (nodes : List Node) : List String :=
  nodes.filterMap fun
    | .element tag children =>
        if rule.allows ⟨tag, children⟩ then some tag.name.localName else none
    | _ => none

end ElementRule

/-- Something about an element that a rule forbids: where it stands, and what it is. -/
inductive Flaw (rule : ElementRule) (e : Element) : Span → Cause → Prop where
  | strayAttribute {a : Attribute} (inside : a ∈ e.tag.attributes) (plain : a.name.uri = none)
      (stray : rule.allowsAttribute a.name.localName = false) :
      Flaw rule e e.tag.span (.attributeNotAllowed a.name.localName rule.name)
  | missingAttribute {name : String} (required : name ∈ rule.required)
      (missing : e.attribute? name = none) :
      Flaw rule e e.tag.span (.attributeMissing rule.name name)
  | strayElement {tag : Tag} {children : List Node} (inside : .element tag children ∈ e.children)
      (stray : rule.allows ⟨tag, children⟩ = false) :
      Flaw rule e tag.span (.elementNotAllowed tag.name.localName rule.name)
  | repeatedElement {tag : Tag} {children before after : List Node}
      (listed : e.children = before ++ .element tag children :: after)
      (allowed : rule.allows ⟨tag, children⟩ = true) (single : tag.name.localName ∈ rule.single)
      (earlier : tag.name.localName ∈ rule.allowedNames before) :
      Flaw rule e tag.span (.elementRepeated rule.name tag.name.localName)
  | strayText {span : Span} {content : List Char} (inside : .text span content ∈ e.children)
      (textless : rule.text = false) {c : Char} (written : c ∈ content)
      (solid : isBlank c = false) : Flaw rule e span (.textNotAllowed rule.name)

namespace Source

variable {s : Source} {rule : ElementRule} {e : Element} {p : Problem}

/-- A problem at a place. -/
def problemAt (s : Source) (span : Span) (cause : Cause) : Problem :=
  ⟨some (s.locationOf span), cause⟩

/-- Something stray among children, where those in front of them have the names in `seen`. -/
inductive Stray (rule : ElementRule) (seen : List String) (nodes : List Node) :
    Span → Cause → Prop where
  | element {tag : Tag} {children : List Node} (inside : .element tag children ∈ nodes)
      (stray : rule.allows ⟨tag, children⟩ = false) :
      Stray rule seen nodes tag.span (.elementNotAllowed tag.name.localName rule.name)
  | repeated {tag : Tag} {children before after : List Node}
      (listed : nodes = before ++ .element tag children :: after)
      (allowed : rule.allows ⟨tag, children⟩ = true) (single : tag.name.localName ∈ rule.single)
      (earlier : tag.name.localName ∈ seen ++ rule.allowedNames before) :
      Stray rule seen nodes tag.span (.elementRepeated rule.name tag.name.localName)
  | text {span : Span} {content : List Char} (inside : .text span content ∈ nodes)
      (textless : rule.text = false) {c : Char} (written : c ∈ content)
      (solid : isBlank c = false) : Stray rule seen nodes span (.textNotAllowed rule.name)

section Children

variable {seen : List String} {node : Node} {nodes : List Node} {span : Span} {cause : Cause}

theorem eq_of_singleton_eq {n : Node} {before after : List Node}
    (listed : [node] = before ++ n :: after) : before = [] ∧ n = node := by
  cases before with
  | nil =>
      cases listed
      exact ⟨rfl, rfl⟩
  | cons first before => cases before <;> cases (List.cons.inj listed).2

theorem not_stray_nil : ¬Stray rule seen [] span cause := by
  intro stray
  cases stray with
  | element inside => cases inside
  | @repeated _ _ before _ listed => cases before <;> cases listed
  | text inside => cases inside

/-- What is stray behind a node is so whatever the node is, once its name is among those seen. -/
theorem stray_cons : Stray rule seen (node :: nodes) span cause ↔
    Stray rule seen [node] span cause ∨
      Stray rule (seen ++ rule.allowedNames [node]) nodes span cause := by
  have names (before : List Node) : seen ++ rule.allowedNames (node :: before) =
      seen ++ rule.allowedNames [node] ++ rule.allowedNames before := by
    rw [List.append_assoc, ElementRule.allowedNames, ← List.singleton_append,
      List.filterMap_append]
    rfl
  constructor
  · intro stray
    cases stray with
    | element inside stray =>
        rcases List.mem_cons.mp inside with rfl | later
        · exact .inl (.element List.mem_cons_self stray)
        · exact .inr (.element later stray)
    | @repeated tag children before after listed allowed single earlier =>
        cases before with
        | nil =>
            obtain ⟨rfl, rfl⟩ := List.cons.inj listed
            exact .inl (.repeated (List.nil_append _).symm allowed single earlier)
        | cons first before =>
            obtain ⟨rfl, rest⟩ := List.cons.inj listed
            rw [names] at earlier
            exact .inr (.repeated rest allowed single earlier)
    | text inside textless written solid =>
        rcases List.mem_cons.mp inside with rfl | later
        · exact .inl (.text List.mem_cons_self textless written solid)
        · exact .inr (.text later textless written solid)
  · rintro (stray | stray)
    · cases stray with
      | element inside stray =>
          obtain rfl := List.mem_singleton.mp inside
          exact .element List.mem_cons_self stray
      | repeated listed allowed single earlier =>
          obtain ⟨rfl, rfl⟩ := eq_of_singleton_eq listed
          exact .repeated (List.nil_append _).symm allowed single earlier
      | text inside textless written solid =>
          obtain rfl := List.mem_singleton.mp inside
          exact .text List.mem_cons_self textless written solid
    · cases stray with
      | element inside stray => exact .element (List.mem_cons_of_mem _ inside) stray
      | @repeated tag children before after listed allowed single earlier =>
          rw [← names] at earlier
          exact .repeated (congrArg (List.cons node) listed) allowed single earlier
      | text inside textless written solid =>
          exact .text (List.mem_cons_of_mem _ inside) textless written solid

theorem stray_element {tag : Tag} {children : List Node} :
    Stray rule seen [.element tag children] span cause ↔ span = tag.span ∧
      if rule.allows ⟨tag, children⟩ then
        tag.name.localName ∈ rule.single ∧ tag.name.localName ∈ seen ∧
          cause = .elementRepeated rule.name tag.name.localName
      else cause = .elementNotAllowed tag.name.localName rule.name := by
  constructor
  · intro stray
    cases stray with
    | element inside stray =>
        cases List.mem_singleton.mp inside
        rw [if_neg (ne_true_of_eq_false stray)]
        exact ⟨rfl, rfl⟩
    | repeated listed allowed single earlier =>
        obtain ⟨rfl, same⟩ := eq_of_singleton_eq listed
        cases same
        rw [if_pos allowed]
        exact ⟨rfl, single, (List.mem_append.mp earlier).resolve_right List.not_mem_nil, rfl⟩
    | text inside => cases List.mem_singleton.mp inside
  · rintro ⟨rfl, found⟩
    split at found
    next allowed =>
      obtain ⟨single, earlier, rfl⟩ := found
      exact .repeated (List.nil_append _).symm allowed single (List.mem_append_left _ earlier)
    next stray =>
      rw [found]
      exact .element List.mem_cons_self (eq_false_of_ne_true stray)

theorem stray_text {place : Span} {content : List Char} :
    Stray rule seen [.text place content] span cause ↔ span = place ∧ rule.text = false ∧
      (∃ c ∈ content, isBlank c = false) ∧ cause = .textNotAllowed rule.name := by
  constructor
  · intro stray
    cases stray with
    | element inside => cases List.mem_singleton.mp inside
    | repeated listed => cases (eq_of_singleton_eq listed).2
    | text inside textless written solid =>
        cases List.mem_singleton.mp inside
        exact ⟨rfl, textless, ⟨_, written, solid⟩, rfl⟩
  · rintro ⟨rfl, textless, ⟨c, written, solid⟩, rfl⟩
    exact .text List.mem_cons_self textless written solid

/-- A problem about something stray among children. -/
def IsStray (s : Source) (rule : ElementRule) (seen : List String) (nodes : List Node)
    (p : Problem) : Prop :=
  ∃ span cause, Stray rule seen nodes span cause ∧ p = s.problemAt span cause

theorem isStray_cons : s.IsStray rule seen (node :: nodes) p ↔
    s.IsStray rule seen [node] p ∨ s.IsStray rule (seen ++ rule.allowedNames [node]) nodes p := by
  constructor
  · rintro ⟨span, cause, stray, same⟩
    rcases stray_cons.mp stray with here | later
    · exact .inl ⟨span, cause, here, same⟩
    · exact .inr ⟨span, cause, later, same⟩
  · rintro (⟨span, cause, here, same⟩ | ⟨span, cause, later, same⟩)
    · exact ⟨span, cause, stray_cons.mpr (.inl here), same⟩
    · exact ⟨span, cause, stray_cons.mpr (.inr later), same⟩

theorem isStray_element {tag : Tag} {children : List Node} :
    s.IsStray rule seen [.element tag children] p ↔
      if rule.allows ⟨tag, children⟩ then
        tag.name.localName ∈ rule.single ∧ tag.name.localName ∈ seen ∧
          p = s.problemAt tag.span (.elementRepeated rule.name tag.name.localName)
      else p = s.problemAt tag.span (.elementNotAllowed tag.name.localName rule.name) := by
  simp only [IsStray, stray_element]
  split
  next =>
    constructor
    · rintro ⟨span, cause, ⟨rfl, single, earlier, rfl⟩, rfl⟩
      exact ⟨single, earlier, rfl⟩
    · rintro ⟨single, earlier, rfl⟩
      exact ⟨_, _, ⟨rfl, single, earlier, rfl⟩, rfl⟩
  next =>
    constructor
    · rintro ⟨span, cause, ⟨rfl, rfl⟩, rfl⟩
      rfl
    · rintro rfl
      exact ⟨_, _, ⟨rfl, rfl⟩, rfl⟩

theorem allowedNames_element {tag : Tag} {children : List Node} :
    rule.allowedNames [.element tag children] =
      if rule.allows ⟨tag, children⟩ then [tag.name.localName] else [] := by
  unfold ElementRule.allowedNames
  cases allowed : rule.allows ⟨tag, children⟩ <;> simp [allowed]

theorem not_isStray_singleton (noElement : ∀ tag children, node ≠ .element tag children)
    (noText : ∀ span content, node ≠ .text span content) : ¬s.IsStray rule seen [node] p := by
  rintro ⟨span, cause, stray, -⟩
  cases stray with
  | element inside => exact noElement _ _ (List.mem_singleton.mp inside).symm
  | repeated listed => exact noElement _ _ (eq_of_singleton_eq listed).2.symm
  | text inside => exact noText _ _ (List.mem_singleton.mp inside).symm

theorem strayChildren_element (kept : List String) (tag : Tag) (children rest : List Node) :
    s.strayChildren rule kept (.element tag children :: rest) =
      if rule.allows ⟨tag, children⟩ then
        if tag.name.localName ∈ rule.single then
          if tag.name.localName ∈ kept then
            s.problemAt tag.span (.elementRepeated rule.name tag.name.localName) ::
              s.strayChildren rule kept rest
          else s.strayChildren rule (tag.name.localName :: kept) rest
        else s.strayChildren rule kept rest
      else
        s.problemAt tag.span (.elementNotAllowed tag.name.localName rule.name) ::
          s.strayChildren rule kept rest := by
  have allows : rule.allowsChild tag.name.localName
      (tag.name.uri == some schemaNamespace) = rule.allows ⟨tag, children⟩ := rfl
  rw [strayChildren, allows]
  cases rule.allows ⟨tag, children⟩ with
  | false => rfl
  | true =>
      by_cases single : tag.name.localName ∈ rule.single
      · simp only [List.contains_iff_mem.mpr single, if_pos single, List.contains_iff_mem]
        rfl
      · rw [if_neg single]
        simp [single]

theorem isStray_text {place : Span} {content : List Char} :
    s.IsStray rule seen [.text place content] p ↔
      (!rule.text && !content.all isBlank) = true ∧
        p = s.problemAt place (.textNotAllowed rule.name) := by
  simp only [IsStray, stray_text]
  constructor
  · rintro ⟨span, cause, ⟨rfl, textless, ⟨c, inside, solid⟩, rfl⟩, rfl⟩
    refine ⟨?_, rfl⟩
    simp only [textless, Bool.not_false, Bool.true_and, Bool.not_eq_true', List.all_eq_false]
    exact ⟨c, inside, ne_true_of_eq_false solid⟩
  · rintro ⟨found, rfl⟩
    simp only [Bool.and_eq_true, Bool.not_eq_true', List.all_eq_false] at found
    obtain ⟨textless, c, inside, solid⟩ := found
    exact ⟨_, _, ⟨rfl, textless, ⟨c, inside, eq_false_of_ne_true solid⟩, rfl⟩, rfl⟩

/-- Of the names of the children seen so far, those that may come once only are remembered. -/
def Remembers (rule : ElementRule) (kept seen : List String) : Prop :=
  ∀ name ∈ rule.single, name ∈ kept ↔ name ∈ seen

namespace Remembers

variable {kept : List String} {name : String}

theorem again (known : Remembers rule kept seen) (earlier : name ∈ kept) :
    Remembers rule kept (seen ++ [name]) := by
  intro other once
  rw [List.mem_append, List.mem_singleton, ← known other once]
  exact ⟨.inl, fun found => found.elim id fun it => it ▸ earlier⟩

theorem add (known : Remembers rule kept seen) (name : String) :
    Remembers rule (name :: kept) (seen ++ [name]) := by
  intro other once
  rw [List.mem_cons, known other once, List.mem_append, List.mem_singleton, or_comm]

theorem pass (known : Remembers rule kept seen) (often : name ∉ rule.single) :
    Remembers rule kept (seen ++ [name]) := by
  intro other once
  rw [List.mem_append, List.mem_singleton, known other once]
  exact (or_iff_left fun it => often (Eq.subst it once)).symm

end Remembers

/-- The pass over the children remembers the names that may come once only. -/
theorem mem_strayChildren_iff {kept : List String} (known : Remembers rule kept seen) :
    p ∈ s.strayChildren rule kept nodes ↔ s.IsStray rule seen nodes p := by
  induction nodes generalizing kept seen with
  | nil => exact ⟨nofun, fun ⟨_, _, stray, _⟩ => absurd stray not_stray_nil⟩
  | cons node rest ih =>
      rw [isStray_cons]
      cases node with
      | element tag children =>
          rw [isStray_element, allowedNames_element, strayChildren_element]
          by_cases allowed : rule.allows ⟨tag, children⟩ = true
          · rw [if_pos allowed, if_pos allowed, if_pos allowed]
            by_cases single : tag.name.localName ∈ rule.single
            · rw [if_pos single]
              by_cases earlier : tag.name.localName ∈ kept
              · rw [if_pos earlier, List.mem_cons, ih (known.again earlier)]
                exact or_congr_left ⟨fun it => ⟨single, (known _ single).mp earlier, it⟩,
                  fun it => it.2.2⟩
              · rw [if_neg earlier, ih (known.add _)]
                exact (or_iff_right fun it => earlier ((known _ single).mpr it.2.1)).symm
            · rw [if_neg single, ih (known.pass single)]
              exact (or_iff_right fun it => single it.1).symm
          · rw [if_neg allowed, if_neg allowed, if_neg allowed, List.append_nil, List.mem_cons,
              ih known]
      | text place content =>
          have nameless : rule.allowedNames [.text place content] = [] := rfl
          rw [isStray_text, nameless, List.append_nil, strayChildren]
          split
          next found =>
            rw [List.mem_cons, ih known]
            exact or_congr_left (and_iff_right found).symm
          next blank => rw [ih known, or_iff_right fun it => blank it.1]
      | comment place =>
          have plain : ¬s.IsStray rule seen [.comment place] p :=
            not_isStray_singleton (fun _ _ => nofun) fun _ _ => nofun
          have nameless : rule.allowedNames [.comment place] = [] := rfl
          rw [or_iff_right plain, nameless, List.append_nil]
          exact ih known
      | instruction place =>
          have plain : ¬s.IsStray rule seen [.instruction place] p :=
            not_isStray_singleton (fun _ _ => nofun) fun _ _ => nofun
          have nameless : rule.allowedNames [.instruction place] = [] := rfl
          rw [or_iff_right plain, nameless, List.append_nil]
          exact ih known

end Children

/-- The problems that a check reports are the flaws of the element. -/
theorem mem_violations_iff : p ∈ s.violations e rule ↔
    ∃ span cause, Flaw rule e span cause ∧ p = s.problemAt span cause := by
  have attributes : p ∈ s.strayAttributes e rule ↔ ∃ a ∈ e.tag.attributes,
      a.name.uri = none ∧ rule.allowsAttribute a.name.localName = false ∧
        p = s.problemAt e.tag.span (.attributeNotAllowed a.name.localName rule.name) := by
    simp only [strayAttributes, List.mem_map, List.mem_filter, Bool.and_eq_true,
      Option.isNone_iff_eq_none, Bool.not_eq_true', and_assoc, eq_comm (b := p)]
    rfl
  have missing : p ∈ s.missingAttributes e rule ↔ ∃ name ∈ rule.required,
      e.attribute? name = none ∧
        p = s.problemAt e.tag.span (.attributeMissing rule.name name) := by
    simp only [missingAttributes, List.mem_map, List.mem_filter, Option.isNone_iff_eq_none,
      and_assoc, eq_comm (b := p)]
    rfl
  rw [violations, List.mem_append, List.mem_append, attributes, missing,
    mem_strayChildren_iff fun _ _ => Iff.rfl]
  constructor
  · rintro ((⟨a, inside, plain, stray, rfl⟩ | ⟨name, required, lacking, rfl⟩) |
      ⟨span, cause, stray, rfl⟩)
    · exact ⟨_, _, .strayAttribute inside plain stray, rfl⟩
    · exact ⟨_, _, .missingAttribute required lacking, rfl⟩
    · refine ⟨span, cause, ?_, rfl⟩
      cases stray with
      | element inside stray => exact .strayElement inside stray
      | repeated listed allowed single earlier =>
          exact .repeatedElement listed allowed single earlier
      | text inside textless written solid => exact .strayText inside textless written solid
  · rintro ⟨span, cause, flaw, rfl⟩
    cases flaw with
    | strayAttribute inside plain stray => exact .inl (.inl ⟨_, inside, plain, stray, rfl⟩)
    | missingAttribute required lacking => exact .inl (.inr ⟨_, required, lacking, rfl⟩)
    | strayElement inside stray => exact .inr ⟨_, _, .element inside stray, rfl⟩
    | repeatedElement listed allowed single earlier =>
        exact .inr ⟨_, _, .repeated listed allowed single earlier, rfl⟩
    | strayText inside textless written solid =>
        exact .inr ⟨_, _, .text inside textless written solid, rfl⟩

end Source

/-! ## Elements that are led to -/

namespace Role

/-- The children among elements that play a part, with their parts: only the first one of a name
that may come once only. -/
def descend (role : Role) (es : List Element) : List (Role × Element) :=
  role.parts.flatMap fun part =>
    let named := es.filter fun c => c.name == part.1
    (if part.1 ∈ role.rule.single then named.take 1 else named).map fun c => (part.2, c)

/-- Whether a pass reads what stands in an element: not in a member without a value type. -/
def isRead : Role → Element → Bool
  | property, e | member _, e => ((e.attribute? "Type").bind ValueType.ofSchemaName?).isSome
  | _, _ => true

end Role

/-- One element leads to another one: to a child that the rule allows, the first one where only one
is allowed. -/
def LeadsTo (x y : Role × Element) : Prop :=
  y ∈ x.1.descend (x.2.elements.filter x.1.rule.allows)

/-- A pass goes on from one element to another one. -/
def ReadsNext (x y : Role × Element) : Prop :=
  x.1.isRead x.2 = true ∧ y ∈ x.1.descend x.2.elements

/-- The elements that the grammar leads to from a root. -/
def Reaches (root : Element) : Role × Element → Prop :=
  ReflTransGen LeadsTo (.schemaFile, root)

/-- The elements that a pass over a file with this root reads. -/
def Visits (root : Element) : Role × Element → Prop :=
  ReflTransGen ReadsNext (.schemaFile, root)

/-! ## Places of flaws -/

/-- A child of an element with a part in it. -/
def IsPart (x y : Role × Element) : Prop :=
  y.2 ∈ x.2.elements ∧ (y.2.name, y.1) ∈ x.1.parts

theorem Role.nodup_parts (role : Role) : (role.parts.map Prod.fst).Nodup := by
  cases role with
  | properties extending => cases extending <;> decide
  | parameters extending => cases extending <;> decide
  | member | memberExtension | grant => exact List.nodup_singleton _
  | _ => decide

theorem IsPart.unique {x y z : Role × Element} (first : IsPart x y) (second : IsPart x z)
    (same : y.2 = z.2) : y = z := by
  have parts := x.1.nodup_parts
  have part : (y.2.name, y.1) = (z.2.name, z.1) :=
    List.inj_on_of_nodup_map parts first.2 second.2 (congrArg Element.name same)
  exact Prod.ext (Prod.mk.inj part).2 same

theorem isPart_of_mem_descend {x y : Role × Element} {es : List Element}
    (inside : y ∈ x.1.descend es) : y.2 ∈ es ∧ (y.2.name, y.1) ∈ x.1.parts := by
  obtain ⟨part, listed, member⟩ := List.mem_flatMap.mp inside
  obtain ⟨c, chosen, rfl⟩ := List.mem_map.mp member
  have named : c ∈ es.filter fun c => c.name == part.1 := by
    split at chosen
    next => exact List.mem_of_mem_take chosen
    next => exact chosen
  obtain ⟨known, same⟩ := List.mem_filter.mp named
  exact ⟨known, (beq_iff_eq.mp same) ▸ listed⟩

theorem LeadsTo.isPart {x y : Role × Element} (leads : LeadsTo x y) : IsPart x y := by
  obtain ⟨known, listed⟩ := isPart_of_mem_descend leads
  exact ⟨(List.mem_filter.mp known).1, listed⟩

theorem ReadsNext.isPart {x y : Role × Element} (reads : ReadsNext x y) : IsPart x y :=
  isPart_of_mem_descend reads.2

section Places

variable {source : List Char} {all : List Token} {root x y : Role × Element}

theorem path_of_isPart (path : ReflTransGen IsPart x y) :
    ReflTransGen (fun x y => y ∈ x.elements) x.2 y.2 := by
  induction path with
  | refl => exact .refl
  | tail _ part ih => exact ih.tail part.1

/-- Places that belong to one element only: they lie in it, and what they mark in an element is not
what they mark below it. -/
structure Marks (marks : Element → Nat → Prop) : Prop where
  inside : ∀ {source all e k}, Placed source all e → marks e k →
    e.tag.span.start ≤ k ∧ k < e.tag.span.stop
  apart : ∀ {source all e child below k}, Placed source all e → child ∈ e.elements →
    ReflTransGen (fun x y => y ∈ x.elements) child below → marks e k → ¬marks below k

/-- A place with a mark tells the element below a root. -/
theorem eq_of_marks {marks : Element → Nat → Prop} (marking : Marks marks)
    (placed : Placed source all root.2) (first : ReflTransGen IsPart root x)
    (second : ReflTransGen IsPart root y) {k : Nat} (marked : marks x.2 k)
    (markedToo : marks y.2 k) : x = y := by
  induction first using ReflTransGen.head_induction_on with
  | refl =>
      rcases second.cases_head with same | ⟨child, part, rest⟩
      · exact same
      · exact absurd markedToo (marking.apart placed part.1 (path_of_isPart rest) marked)
  | @head root child part rest ih =>
      rcases second.cases_head with same | ⟨other, partToo, restToo⟩
      · rw [← same] at markedToo
        exact absurd marked (marking.apart placed part.1 (path_of_isPart rest) markedToo)
      · have here := placed.of_elements part.1
        have there := placed.of_elements partToo.1
        obtain ⟨below, start, stop⟩ := here.of_path (path_of_isPart rest)
        obtain ⟨belowToo, startToo, stopToo⟩ := there.of_path (path_of_isPart restToo)
        have place := marking.inside below marked
        have placeToo := marking.inside belowToo markedToo
        have inFirst : child.2.tag.span.start ≤ k ∧ k < child.2.tag.span.stop := by omega
        have inSecond : other.2.tag.span.start ≤ k ∧ k < other.2.tag.span.stop := by omega
        have same := part.unique partToo
          (placed.eq_of_elements part.1 partToo.1 inFirst inSecond)
        rw [← same] at restToo
        exact ih here restToo

/-- An element begins at a place of its own. -/
theorem marks_start : Marks fun e k => e.tag.span.start = k := by
  refine ⟨?_, ?_⟩
  · rintro source all e _ placed rfl
    exact ⟨Nat.le_refl _, placed.start_lt_stop⟩
  · rintro source all e child below _ placed member path rfl same
    have inside := placed.inside (mem_children_of_mem_elements member)
    have later := ((placed.of_elements member).of_path path).2.1
    simp only [Node.span] at inside
    omega

/-- What an element holds begins at places of its own. -/
theorem marks_children :
    Marks fun e k => ∃ n ∈ e.children, n.span.start < n.span.stop ∧ n.span.start = k := by
  refine ⟨?_, ?_⟩
  · rintro source all e _ placed ⟨n, member, solid, rfl⟩
    have inside := placed.inside member
    omega
  · rintro source all e child below _ placed member path ⟨n, listed, solid, rfl⟩
      ⟨m, further, some_char, same⟩
    obtain ⟨deep, later, ends⟩ := (placed.of_elements member).of_path path
    have inside := deep.inside further
    have equal := placed.eq_of_start listed solid member (by omega) (by omega)
    have begins : n.span.start = child.tag.span.start := congrArg (fun n => n.span.start) equal
    omega

end Places

/-- Whether a cause is about the tag of an element. -/
def Cause.isOfTag : Cause → Bool
  | attributeNotAllowed _ _ | attributeMissing _ _ => true
  | _ => false

section Flaws

variable {source : List Char} {all : List Token} {rule : ElementRule} {e : Element} {span : Span}
  {cause : Cause}

theorem Flaw.span_eq (flaw : Flaw rule e span cause) (ofTag : cause.isOfTag = true) :
    span = e.tag.span := by
  cases flaw with
  | strayAttribute => rfl
  | missingAttribute => rfl
  | _ => cases ofTag

theorem Flaw.exists_child (flaw : Flaw rule e span cause) (placed : Placed source all e)
    (ofChild : cause.isOfTag = false) :
    ∃ n ∈ e.children, n.span.start < n.span.stop ∧ n.span.start = span.start := by
  cases flaw with
  | strayAttribute => cases ofChild
  | missingAttribute => cases ofChild
  | strayElement inside => exact ⟨_, inside, placed.solid inside (.inr ⟨_, _, rfl⟩), rfl⟩
  | @repeatedElement tag children before after listed =>
      have inside : .element tag children ∈ e.children := by
        rw [listed]
        exact List.mem_append_right _ List.mem_cons_self
      exact ⟨_, inside, placed.solid inside (.inr ⟨_, _, rfl⟩), rfl⟩
  | strayText inside => exact ⟨_, inside, placed.solid inside (.inl rfl), rfl⟩

/-- A flaw stands in the text. -/
theorem Flaw.start_le (flaw : Flaw rule e span cause) (placed : Placed source all e) :
    span.start ≤ source.length := by
  have short := placed.stop_le
  have solid := placed.start_lt_stop
  cases ofTag : cause.isOfTag with
  | true =>
      rw [flaw.span_eq ofTag]
      omega
  | false =>
      obtain ⟨n, member, some_char, same⟩ := flaw.exists_child placed ofTag
      have inside := placed.inside member
      omega

/-- A flaw at one place, for one cause, belongs to one element below a root. -/
theorem Flaw.unique {root x y : Role × Element} {other : Span} (placed : Placed source all root.2)
    (first : ReflTransGen IsPart root x) (second : ReflTransGen IsPart root y)
    (flaw : Flaw x.1.rule x.2 span cause) (flawToo : Flaw y.1.rule y.2 other cause)
    (same : span.start = other.start) : x = y := by
  cases ofTag : cause.isOfTag with
  | true =>
      have here := flaw.span_eq ofTag
      have there := flawToo.span_eq ofTag
      rw [here, there] at same
      exact eq_of_marks marks_start placed first second rfl same.symm
  | false =>
      have below := (placed.of_path (path_of_isPart first)).1
      have belowToo := (placed.of_path (path_of_isPart second)).1
      have marked := flaw.exists_child below ofTag
      have markedToo := flawToo.exists_child belowToo ofTag
      rw [← same] at markedToo
      exact eq_of_marks marks_children placed first second marked markedToo

end Flaws

end LearningStore.Schema
