import LearningStore.Proofs.Xml.Tag
import Mathlib.Logic.Relation

/-!
# Written elements are read

A document is read token by token.  A start tag opens an element, an empty tag adds one,
and an end tag closes the element that was opened last, so a text of written tags builds up
the tree that was written.  Places in the text are no part of what is claimed here.
-/

namespace LearningStore.Xml

open LearningStore.Text
open Relation

/-- Where a document is being read: what has been read, what the scanner is inside of, and
the text that is left. -/
structure Reading where
  made : Partial
  region : Region
  cursor : Cursor

/-- One token is scanned and read.  Every token takes at least one character. -/
inductive Reads : Reading → Reading → Prop where
  | token {p p' : Partial} {r r' : Region} {c c' : Cursor} {t : Token}
      (scanned : Step.next r c = .scanned t r' c') (read : p.step t = .ok p')
      (shorter : c'.rest.length < c.rest.length) : Reads ⟨p, r, c⟩ ⟨p', r', c'⟩

/-- What steps lead to is what the tokens from here on make, if the scan ends there. -/
theorem run_scanFrom {from' to' : Reading} (path : ReflTransGen Reads from' to')
    (ended : Step.next to'.region to'.cursor = .finished) {bound : Nat}
    (enough : from'.cursor.rest.length < bound) :
    from'.made.run (Token.scanFrom bound from'.region from'.cursor).tokens = .ok to'.made ∧
      (Token.scanFrom bound from'.region from'.cursor).fault = none := by
  induction path using ReflTransGen.head_induction_on generalizing bound with
  | refl =>
      cases bound with
      | zero => omega
      | succ bound =>
          rw [Token.scanFrom, ended]
          exact ⟨rfl, rfl⟩
  | head step _ ih =>
      cases bound with
      | zero => omega
      | succ bound =>
          obtain ⟨scanned, read, shorter⟩ := step
          have fewer := Nat.lt_of_lt_of_le shorter (Nat.le_of_lt_succ enough)
          obtain ⟨made, fault⟩ := ih fewer
          simp only [Token.scanFrom, scanned, Partial.run, read]
          exact ⟨made, fault⟩

/-- A text that begins with a tag has no mark and no declaration before it. -/
theorem skipDeclaration_eq_ok {c : Cursor} {first : Char} {rest : List Char}
    (here : c.rest = '<' :: first :: rest) (begins : isNameStart first = true) :
    c.skipMark.skipDeclaration = .ok c := by
  have noMark : c.skipMark = c := by
    unfold Cursor.skipMark
    rw [here]
    rfl
  have noDeclaration : c.startsWith "<?xml " = false := by
    have other : first ≠ '?' := by
      rintro rfl
      exact absurd begins (by decide)
    have parted : ('?' == first) = false := beq_false_of_ne other.symm
    simp [Cursor.startsWith, here, List.isPrefixOf, parted]
  rw [noMark, Cursor.skipDeclaration, noDeclaration]
  rfl

/-- The root that steps lead to, from the beginning of a text to its end, is the root of the
text. -/
theorem rootOf_eq_ok {text : List Char} {first : Char} {rest : List Char} {root : Element}
    {last : Cursor} (here : text = '<' :: first :: rest) (begins : isNameStart first = true)
    (path : ReflTransGen Reads ⟨.empty, .prologue, ⟨0, text⟩⟩
      ⟨⟨none, [], some root⟩, .epilogue, last⟩)
    (ended : last.rest = []) : Document.rootOf text = .ok root := by
  have finished : Step.next .epilogue last = .finished := by
    simp [Step.next, Step.inEpilogue, Cursor.skipSpaces, Cursor.atEnd, ended]
  obtain ⟨made, fault⟩ := run_scanFrom path finished (Nat.lt_succ_self _)
  have start : Token.scan text = Token.scanFrom (text.length + 1) .prologue ⟨0, text⟩ := by
    rw [Token.scan, skipDeclaration_eq_ok (c := ⟨0, text⟩) here begins]
  unfold Document.rootOf
  simp only [start, made, fault]

/-! ## Tokens of tags -/

/-- The regions in which a start tag may stand, with the number of open elements. -/
inductive Opens : Region → Nat → Prop where
  | prologue : Opens .prologue 0
  | content (depth : Nat) : Opens (.content depth) depth

variable {p : Partial} {depth : Nat} {c : Cursor}

/-- Where a start tag stands, the scanner reads one. -/
theorem next_startTag {region : Region} {first : Char} {rest : List Char}
    (opens : Opens region depth) (here : c.rest = '<' :: first :: rest)
    (begins : isNameStart first = true) :
    Step.next region c = Step.ofScan (.tag depth) c.startTagToken := by
  have bang : first ≠ '!' := by rintro rfl; exact absurd begins (by decide)
  have query : first ≠ '?' := by rintro rfl; exact absurd begins (by decide)
  have slash : first ≠ '/' := by rintro rfl; exact absurd begins (by decide)
  cases opens with
  | prologue =>
      have spaces : c.skipSpaces = c :=
        Cursor.skipSpaces_of_not_isSpace here (by decide)
      simp [Step.next, Step.inPrologue, spaces, Cursor.atEnd, Cursor.startsWith, here,
        bang.symm, query.symm]
  | content =>
      simp only [Step.next, Step.inContent]
      rw [here]
      split <;> simp_all

/-- The name of a start tag opens a tag. -/
theorem reads_name {region : Region} {name : String} {d : Char} {rest : List Char}
    (opens : Opens region depth) (plain : PlainName name) (stop : isNameChar d = false)
    (here : c.rest = '<' :: (name.toList ++ d :: rest)) :
    ∃ after : Cursor, after.rest = d :: rest ∧
      Reads ⟨p, region, c⟩
        ⟨{ p with opening := some ⟨c.offset, ⟨"", name⟩, [], []⟩ }, .tag depth, after⟩ := by
  obtain ⟨first, others, spelled, begins⟩ := plain.exists_cons
  have inside : (c.advance 1).rest = name.toList ++ d :: rest := by
    rw [Cursor.advance, here]
    rfl
  obtain ⟨after, behind, named⟩ := Cursor.qname_eq_ok plain stop inside
  have token : c.startTagToken = .ok (.startTag c.offset ⟨"", name⟩, after) := by
    simp [Cursor.startTagToken, named, bind, Except.bind, pure, Except.pure]
  refine ⟨after, behind, .token (t := .startTag c.offset ⟨"", name⟩) ?_ rfl ?_⟩
  · have first : c.rest = '<' :: first :: (others ++ d :: rest) := by
      rw [here, spelled]
      rfl
    rw [next_startTag opens first begins, token]
    rfl
  · rw [behind, here]
    simp only [List.length_cons, List.length_append]
    omega

/-- A character that begins a name is none of the marks that may follow a name or a value. -/
theorem isNameStart_ne {c : Char} (begins : isNameStart c = true) :
    isSpace c = false ∧ c ≠ '/' ∧ c ≠ '>' := by
  refine ⟨?_, by rintro rfl; exact absurd begins (by decide),
    by rintro rfl; exact absurd begins (by decide)⟩
  cases space : isSpace c with
  | false => rfl
  | true =>
      simp only [isSpace, Bool.or_eq_true, beq_iff_eq, or_assoc] at space
      rcases space with rfl | rfl | rfl | rfl <;> exact absurd begins (by decide)

/-- An attribute of a tag as it is written. -/
def attributeChars (a : String × String) : List Char :=
  ' ' :: (a.1.toList ++ '=' :: '"' :: (a.2.toList.flatMap xmlEscape ++ ['"']))

/-- What an attribute needs to be read back. -/
structure PlainAttributePair (a : String × String) : Prop where
  key : PlainName a.1
  value : ∀ d ∈ a.2.toList, IsValueChar d

/-- An attribute is one more attribute of the tag that is being read. -/
theorem reads_attribute (depth : Nat) {o : Opening} {a : String × String} {rest : List Char}
    (opening : p.opening = some o) (plain : PlainAttributePair a)
    (here : c.rest = attributeChars a ++ rest) :
    ∃ (start : Nat) (after : Cursor), after.rest = rest ∧
      Reads ⟨p, .tag depth, c⟩
        ⟨{ p with opening := some { o with
            attributes := o.attributes ++ [⟨start, ⟨"", a.1⟩, a.2⟩] } },
          .tag depth, after⟩ := by
  obtain ⟨first, others, spelled, begins⟩ := plain.key.exists_cons
  obtain ⟨solid, slash, closing⟩ := isNameStart_ne begins
  have inside : c.skipSpaces.rest =
      a.1.toList ++ '=' :: '"' :: (a.2.toList.flatMap xmlEscape ++ '"' :: rest) := by
    simp [Cursor.skipSpaces, here, attributeChars, spelled, solid,
      show isSpace ' ' = true by decide]
  obtain ⟨valueAt, after, behind, token⟩ :=
    Cursor.attributeToken_eq_ok plain.key plain.value inside
  have next : Step.next (.tag depth) c = .scanned
      (.attribute c.skipSpaces.offset ⟨"", a.1⟩ valueAt (a.2.toList.flatMap xmlEscape))
      (.tag depth) after := by
    have spaced : c.startsWithSpace = true := by
      rw [Cursor.startsWithSpace, here]
      rfl
    simp only [Step.next, Step.inTag]
    rw [inside, spelled, List.cons_append]
    split
    next => simp_all
    next => simp_all
    next => simp_all
    next =>
      rw [spaced, token]
      rfl
  have added : Partial.addAttribute o c.skipSpaces.offset ⟨"", a.1⟩ valueAt
      (a.2.toList.flatMap xmlEscape) = .ok { o with
        attributes := o.attributes ++ [⟨c.skipSpaces.offset, ⟨"", a.1⟩, a.2⟩] } := by
    unfold Partial.addAttribute
    rw [ofRaw_flatMap_xmlEscape]
    simp [attributeValue_map_pieceOf plain.value, plain.key.ne_xmlns]
  refine ⟨c.skipSpaces.offset, after, behind, .token next ?_ ?_⟩
  · simp only [Partial.step, opening, added]
    rfl
  · rw [behind, here]
    simp [attributeChars]
    omega

/-- What is kept of an attribute that is being read. -/
def PlainAttribute.pair (a : PlainAttribute) : QName × String :=
  (a.name, a.value)

/-- Attributes are read one after the other. -/
theorem reads_attributes (depth : Nat) {o : Opening} {pairs : List (String × String)}
    {rest : List Char}
    (opening : p.opening = some o) (plain : ∀ a ∈ pairs, PlainAttributePair a)
    (here : c.rest = pairs.flatMap attributeChars ++ rest) :
    ∃ (read : List PlainAttribute) (after : Cursor), after.rest = rest ∧
      read.map PlainAttribute.pair = pairs.map (fun a => (⟨"", a.1⟩, a.2)) ∧
      ReflTransGen Reads ⟨p, .tag depth, c⟩
        ⟨{ p with opening := some { o with attributes := o.attributes ++ read } },
          .tag depth, after⟩ := by
  induction pairs generalizing p o c with
  | nil =>
      refine ⟨[], c, here, rfl, ?_⟩
      rw [List.append_nil, ← opening]
  | cons a others ih =>
      obtain ⟨first, remaining⟩ := List.forall_mem_cons.mp plain
      rw [List.flatMap_cons, List.append_assoc] at here
      obtain ⟨start, between, behind, step⟩ := reads_attribute depth opening first here
      have grown : ({ p with opening := some { o with
          attributes := o.attributes ++ [⟨start, ⟨"", a.1⟩, a.2⟩] } } : Partial).opening =
          some { o with attributes := o.attributes ++ [⟨start, ⟨"", a.1⟩, a.2⟩] } := rfl
      obtain ⟨read, after, ended, same, path⟩ := ih grown remaining behind
      refine ⟨⟨start, ⟨"", a.1⟩, a.2⟩ :: read, after, ended, ?_, ?_⟩
      · rw [List.map_cons, List.map_cons, same]
        rfl
      · refine .head step ?_
        simpa using path

/-! ## Whole tags -/

/-- The name and the attributes of a tag, if no namespace has a part in them. -/
def Tag.markup? (t : Tag) : Option Markup :=
  if t.name.uri.isNone && t.attributes.all (fun a => a.name.uri.isNone) then
    some ⟨t.name.localName, t.attributes.map fun a => (a.name.localName, a.value)⟩
  else none

/-- A tag that is read back as it was meant. -/
structure Markup.Plain (m : Markup) : Prop where
  name : PlainName m.name
  attributes : ∀ a ∈ m.attributes, PlainAttributePair a
  distinct : (m.attributes.map Prod.fst).Nodup

theorem Markup.toList_inside (m : Markup) :
    m.inside.toList = m.name.toList ++ m.attributes.flatMap attributeChars := by
  rw [Markup.inside, String.toList_append, String.toList_join, List.flatMap_map]
  refine congrArg (m.name.toList ++ List.flatMap · m.attributes) (funext fun a => ?_)
  simp [attributeChars, xmlEscaped, String.toList_append]

/-- Attributes in no namespace are kept as they are if no two of them have one name. -/
theorem expandAttributes_eq_ok (bindings : List Binding) {read : List PlainAttribute}
    (before : List Attribute) (unqualified : ∀ a ∈ read, a.name.qualifier = "")
    (fresh : ∀ a ∈ read, ∀ b ∈ before, b.name ≠ ⟨none, a.name.localName⟩)
    (distinct : (read.map fun a => a.name.localName).Nodup) :
    Partial.expandAttributes bindings before read =
      .ok (before ++ read.map fun a => ⟨⟨none, a.name.localName⟩, a.value⟩) := by
  induction read generalizing before with
  | nil => rw [Partial.expandAttributes, List.map_nil, List.append_nil]
  | cons a rest ih =>
      obtain ⟨here, others⟩ := List.forall_mem_cons.mp unqualified
      rw [List.map_cons, List.nodup_cons] at distinct
      have expanded : Partial.expandAttribute bindings a =
          .ok ⟨⟨none, a.name.localName⟩, a.value⟩ := by
        simp [Partial.expandAttribute, here]
      have free : (before.any fun b => b.name == ⟨none, a.name.localName⟩) = false := by
        rw [List.any_eq_false]
        intro b inside same
        exact fresh a List.mem_cons_self b inside (beq_iff_eq.mp same)
      have fresh' : ∀ x ∈ rest, ∀ b ∈ before ++ [⟨⟨none, a.name.localName⟩, a.value⟩],
          b.name ≠ ⟨none, x.name.localName⟩ := by
        intro x member b inside
        rcases List.mem_append.mp inside with old | new
        · exact fresh x (List.mem_cons_of_mem a member) b old
        · rw [List.mem_singleton.mp new]
          intro same
          exact distinct.1 (List.mem_map.mpr ⟨x, member, (ExpandedName.mk.inj same).2.symm⟩)
      rw [Partial.expandAttributes, expanded]
      simp only [free]
      rw [if_neg Bool.false_ne_true, ih _ others fresh' distinct.2, List.map_cons,
        List.append_assoc, List.singleton_append]

/-- At the end of a start tag without namespaces its names are kept as they are. -/
theorem endTag_eq_ok {o : Opening} {m : Markup} (opened : Bool) (stop : Nat)
    (unbound : p.bindings = []) (plain : m.Plain) (name : o.name = ⟨"", m.name⟩)
    (bindings : o.bindings = [])
    (attributes : o.attributes.map PlainAttribute.pair =
      m.attributes.map fun a => (⟨"", a.1⟩, a.2)) :
    ∃ tag : Tag, tag.markup? = some m ∧ p.endTag o opened stop =
      if opened then
        .ok { p with opening := none, ancestors := ⟨tag, ⟨"", m.name⟩, [], []⟩ :: p.ancestors }
      else .ok (({ p with opening := none } : Partial).add (.element tag [])) := by
  have unqualified : ∀ a ∈ o.attributes, a.name.qualifier = "" := by
    intro a inside
    have pair : a.pair ∈ m.attributes.map fun a => ((⟨"", a.1⟩ : QName), a.2) :=
      attributes ▸ List.mem_map.mpr ⟨a, inside, rfl⟩
    obtain ⟨b, -, same⟩ := List.mem_map.mp pair
    rw [← (Prod.mk.inj same).1]
  have keys : (o.attributes.map fun a => a.name.localName) = m.attributes.map Prod.fst := by
    have := congrArg (List.map fun x : QName × String => x.1.localName) attributes
    simpa [List.map_map, Function.comp_def, PlainAttribute.pair] using this
  have pairs : (o.attributes.map fun a => (a.name.localName, a.value)) = m.attributes := by
    have := congrArg (List.map fun x : QName × String => (x.1.localName, x.2)) attributes
    simpa [List.map_map, Function.comp_def, PlainAttribute.pair] using this
  have expanded := expandAttributes_eq_ok (o.bindings ++ p.bindings) []
    unqualified (by simp) (keys ▸ plain.distinct)
  have element : Partial.expand (o.bindings ++ p.bindings) (o.start + 1) o.name =
      .ok ⟨none, m.name⟩ := by
    rw [bindings, unbound, name]
    rfl
  refine ⟨⟨⟨o.start, stop⟩, ⟨none, m.name⟩,
    o.attributes.map fun a => ⟨⟨none, a.name.localName⟩, a.value⟩⟩, ?_, ?_⟩
  · simp [Tag.markup?, List.map_map, Function.comp_def, pairs]
  · unfold Partial.endTag
    simp only [expanded, element, List.nil_append]
    cases opened with
    | false => rfl
    | true => simp [name, bindings, unbound]

/-- The name and the attributes of a tag, up to its end. -/
theorem reads_inside {region : Region} {m : Markup} {d : Char} {rest : List Char}
    (opens : Opens region depth) (plain : m.Plain) (stop : isNameChar d = false)
    (here : c.rest = '<' :: (m.inside.toList ++ d :: rest)) :
    ∃ (o : Opening) (after : Cursor), after.rest = d :: rest ∧ o.name = ⟨"", m.name⟩ ∧
      o.bindings = [] ∧
      o.attributes.map PlainAttribute.pair = m.attributes.map (fun a => (⟨"", a.1⟩, a.2)) ∧
      ReflTransGen Reads ⟨p, region, c⟩ ⟨{ p with opening := some o }, .tag depth, after⟩ := by
  rw [m.toList_inside, List.append_assoc] at here
  -- What follows the name is the blank before an attribute, or the end of the tag.
  obtain ⟨e, others, following, stopName⟩ : ∃ e others,
      m.attributes.flatMap attributeChars ++ d :: rest = e :: others ∧ isNameChar e = false := by
    cases m.attributes with
    | nil => exact ⟨d, rest, rfl, stop⟩
    | cons a remaining => exact ⟨' ', _, rfl, by decide⟩
  rw [following] at here
  obtain ⟨named, behindName, step⟩ := reads_name (p := p) opens plain.name stopName here
  rw [← following] at behindName
  have opening : ({ p with opening := some ⟨c.offset, ⟨"", m.name⟩, [], []⟩ } : Partial).opening =
      some ⟨c.offset, ⟨"", m.name⟩, [], []⟩ := rfl
  obtain ⟨read, after, behind, same, path⟩ :=
    reads_attributes depth opening plain.attributes behindName
  exact ⟨_, after, behind, rfl, rfl, same, .head step path⟩

/-- A start tag opens an element. -/
theorem reads_start {region : Region} {m : Markup} {rest : List Char}
    (opens : Opens region depth) (plain : m.Plain) (unbound : p.bindings = [])
    (here : c.rest = m.start.toList ++ rest) :
    ∃ (tag : Tag) (after : Cursor), tag.markup? = some m ∧ after.rest = rest ∧
      ReflTransGen Reads ⟨p, region, c⟩
        ⟨{ p with opening := none, ancestors := ⟨tag, ⟨"", m.name⟩, [], []⟩ :: p.ancestors },
          .content (depth + 1), after⟩ := by
  have written : c.rest = '<' :: (m.inside.toList ++ '>' :: rest) := by
    simpa [Markup.start, String.toList_append] using here
  obtain ⟨o, atEnd, behind, name, bindings, attributes, path⟩ :=
    reads_inside (p := p) opens plain (by decide) written
  obtain ⟨tag, same, ended⟩ := endTag_eq_ok (p := { p with opening := some o }) true
    (atEnd.offset + 1) unbound plain name bindings attributes
  have spaces : atEnd.skipSpaces = atEnd := Cursor.skipSpaces_of_not_isSpace behind (by decide)
  refine ⟨tag, atEnd.advance 1, same, by rw [Cursor.advance, behind]; rfl,
    path.tail (.token (t := .tagEnd true (atEnd.offset + 1)) ?_ ended ?_)⟩
  · simp only [Step.next, Step.inTag, spaces]
    rw [behind]
    rfl
  · rw [Cursor.advance, behind]
    simp

/-- An empty tag adds an element without content. -/
theorem reads_empty {region : Region} {m : Markup} {rest : List Char}
    (opens : Opens region depth) (plain : m.Plain) (unbound : p.bindings = [])
    (here : c.rest = m.empty.toList ++ rest) :
    ∃ (tag : Tag) (after : Cursor), tag.markup? = some m ∧ after.rest = rest ∧
      ReflTransGen Reads ⟨p, region, c⟩
        ⟨({ p with opening := none } : Partial).add (.element tag []), Step.within depth,
          after⟩ := by
  have written : c.rest = '<' :: (m.inside.toList ++ '/' :: '>' :: rest) := by
    simpa [Markup.empty, String.toList_append] using here
  obtain ⟨o, atEnd, behind, name, bindings, attributes, path⟩ :=
    reads_inside (p := p) opens plain (by decide) written
  have slash : (atEnd.advance 1).rest = '>' :: rest := by
    rw [Cursor.advance, behind]
    rfl
  obtain ⟨after, behindTag, closed⟩ := Cursor.skipChar_eq_ok slash
  obtain ⟨tag, same, ended⟩ := endTag_eq_ok (p := { p with opening := some o }) false
    after.offset unbound plain name bindings attributes
  have spaces : atEnd.skipSpaces = atEnd := Cursor.skipSpaces_of_not_isSpace behind (by decide)
  refine ⟨tag, after, same, behindTag,
    path.tail (.token (t := .tagEnd false after.offset) ?_ ended ?_)⟩
  · simp only [Step.next, Step.inTag, spaces]
    rw [behind]
    simp only [closed]
  · rw [behindTag, behind]
    simp only [List.length_cons]
    omega

/-- The end tag of the element that was opened last closes it. -/
theorem reads_stop (depth : Nat) {m : Markup} {e : OpenElement} {others : List OpenElement}
    {rest : List Char} (plain : PlainName m.name) (opened : p.ancestors = e :: others)
    (written : e.written = ⟨"", m.name⟩) (here : c.rest = m.stop.toList ++ rest) :
    ∃ (tag : Tag) (after : Cursor), tag.markup? = e.tag.markup? ∧ after.rest = rest ∧
      Reads ⟨p, .content depth, c⟩
        ⟨({ p with ancestors := others } : Partial).add (.element tag e.children.reverse),
          Step.within (depth - 1), after⟩ := by
  have spelled : c.rest = '<' :: '/' :: (m.name.toList ++ '>' :: rest) := by
    simpa [Markup.stop, String.toList_append] using here
  have inside : (c.advance 2).rest = m.name.toList ++ '>' :: rest := by
    rw [Cursor.advance, spelled]
    rfl
  obtain ⟨named, behindName, name⟩ := Cursor.qname_eq_ok plain (by decide) inside
  have spaces : named.skipSpaces = named :=
    Cursor.skipSpaces_of_not_isSpace behindName (by decide)
  obtain ⟨after, behind, closed⟩ := Cursor.skipChar_eq_ok behindName
  have token : c.endTagToken = .ok (.endTag ⟨c.offset, after.offset⟩ ⟨"", m.name⟩, after) := by
    unfold Cursor.endTagToken
    rw [name]
    simp only [bind, Except.bind, spaces, closed]
    rfl
  refine ⟨{ e.tag with span := ⟨e.tag.span.start, after.offset⟩ }, after, rfl, behind,
    .token (t := .endTag ⟨c.offset, after.offset⟩ ⟨"", m.name⟩) ?_ ?_ ?_⟩
  · simp only [Step.next, Step.inContent]
    rw [spelled, token]
    rfl
  · simp only [Partial.step, Partial.close, opened]
    rw [if_pos written.symm]
  · rw [behind, spelled]
    simp
    omega

/-! ## Elements -/

/-- What the children of an element denote if all of them are elements that denote
something. -/
def Element.contents? {α : Type} (f : Element → Option α) (e : Element) : Option (List α) :=
  e.children.mapM fun
    | .element tag children => f ⟨tag, children⟩
    | _ => none

/-- The name and the attributes of an element without content. -/
def Element.empty? (e : Element) : Option Markup :=
  if e.children.isEmpty then e.tag.markup? else none

/-- Wherever an element may stand, a text is read as one that something holds of. -/
def ReadsAs (text : String) (Is : Element → Prop) : Prop :=
  ∀ ⦃p : Partial⦄ ⦃region : Region⦄ ⦃depth : Nat⦄ ⦃c : Cursor⦄ ⦃rest : List Char⦄,
    Opens region depth → p.bindings = [] → c.rest = text.toList ++ rest →
      ∃ (e : Element) (after : Cursor), Is e ∧ after.rest = rest ∧
        ReflTransGen Reads ⟨p, region, c⟩
          ⟨({ p with opening := none } : Partial).add (.element e.tag e.children),
            Step.within depth, after⟩

theorem readsAs_empty {m : Markup} (plain : m.Plain) :
    ReadsAs m.empty fun e => e.empty? = some m := by
  intro p region depth c rest opens unbound here
  obtain ⟨tag, after, same, behind, path⟩ := reads_empty opens plain unbound here
  exact ⟨⟨tag, []⟩, after, same, behind, path⟩

variable {α : Type} {text : α → String}

/-- Children are read one after the other into the element that is open. -/
theorem reads_contents (depth : Nat) {denotes : Element → Option α} {xs : List α}
    (e : OpenElement) (others : List OpenElement) (root : Option Element) {rest : List Char}
    (each : ∀ x ∈ xs, ReadsAs (text x) fun e => denotes e = some x)
    (unbound : e.bindings = []) (here : c.rest = (String.join (xs.map text)).toList ++ rest) :
    ∃ (nodes : List Node) (after : Cursor),
      Element.contents? denotes ⟨e.tag, nodes⟩ = some xs ∧ after.rest = rest ∧
      ReflTransGen Reads ⟨⟨none, e :: others, root⟩, .content (depth + 1), c⟩
        ⟨⟨none, { e with children := nodes.reverse ++ e.children } :: others, root⟩,
          .content (depth + 1), after⟩ := by
  induction xs generalizing e c with
  | nil => exact ⟨[], c, rfl, here, .refl⟩
  | cons x remaining ih =>
      obtain ⟨first, later⟩ := List.forall_mem_cons.mp each
      rw [List.map_cons, String.join_cons, String.toList_append, List.append_assoc] at here
      obtain ⟨child, between, denoted, behind, step⟩ :=
        first (.content (depth + 1)) (p := ⟨none, e :: others, root⟩) unbound here
      let grown := { e with children := .element child.tag child.children :: e.children }
      obtain ⟨nodes, after, same, ended, path⟩ :=
        ih grown later unbound behind
      refine ⟨.element child.tag child.children :: nodes, after, ?_, ended, step.trans ?_⟩
      · unfold Element.contents? at same ⊢
        rw [List.mapM_cons, same]
        simp [denoted]
      · rw [List.reverse_cons, List.append_assoc]
        exact path

/-- A start tag, children and an end tag are read as an element with these children. -/
theorem readsAs_element {denotes : Element → Option α} {m : Markup} {xs : List α}
    (plain : m.Plain) (each : ∀ x ∈ xs, ReadsAs (text x) fun e => denotes e = some x) :
    ReadsAs (m.start ++ String.join (xs.map text) ++ m.stop) fun e =>
      e.tag.markup? = some m ∧ e.contents? denotes = some xs := by
  intro p region depth c rest opens unbound here
  rw [String.toList_append, String.toList_append, List.append_assoc, List.append_assoc] at here
  obtain ⟨tag, inside, same, behindStart, opened⟩ := reads_start opens plain unbound here
  obtain ⟨nodes, atEnd, contents, behindNodes, filled⟩ :=
    reads_contents depth ⟨tag, ⟨"", m.name⟩, [], []⟩ p.ancestors p.root each rfl behindStart
  rw [List.append_nil] at filled
  obtain ⟨closed, after, kept, behind, step⟩ :=
    reads_stop (depth + 1)
      (p := ⟨none, ⟨tag, ⟨"", m.name⟩, [], nodes.reverse⟩ :: p.ancestors, p.root⟩)
      plain.name rfl rfl behindNodes
  rw [List.reverse_reverse] at step
  exact ⟨⟨closed, nodes⟩, after, ⟨kept.trans same, contents⟩, behind,
    (opened.trans filled).tail step⟩

/-- A text that is read as an element is the text of a document with this root. -/
theorem parse_of_readsAs {text : String} {Is : Element → Prop} {first : Char}
    {others : List Char} (reads : ReadsAs text Is)
    (spelled : text.toList = '<' :: first :: others) (begins : isNameStart first = true) :
    ∃ d : Document, Document.parse text = .ok d ∧ Is d.root := by
  obtain ⟨root, last, denoted, ended, path⟩ :=
    reads (p := .empty) (c := ⟨0, text.toList⟩) .prologue rfl (List.append_nil _).symm
  have found : Document.rootOf text.toList = .ok root := rootOf_eq_ok spelled begins path ended
  refine ⟨⟨text.toList, Position.table text.toList, root⟩, ?_, denoted⟩
  unfold Document.parse
  simp only [found]

end LearningStore.Xml
