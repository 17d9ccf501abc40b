import LearningStore.Proofs.Xml.Tag
import Mathlib.Data.Option.Basic

/-!
# Well-formed fragments

A fragment is what may stand between two tags: character data, references, elements, comments,
sections and processing instructions.  In a well-formed one every piece of markup is complete, an
end tag closes the element that was opened last, no two attributes of a tag have one name, and a
reference is to a character by its number or by one of the five names that every document knows.

A reader goes over a fragment character by character.  It knows what it is in the middle of, the
names in the tag or reference there, and the names of the elements that are open.
-/

namespace LearningStore.Xml

open LearningStore.Text

namespace Fragment

/-! ## The reader -/

/-- What a reader is in the middle of. -/
inductive Mode where
  /-- Character data, right behind so many closing brackets. -/
  | text (brackets : Nat)
  | reference
  /-- Behind a less-than sign. -/
  | markup
  | startName
  /-- In a start tag, behind a blank. -/
  | startTag
  | attributeName
  /-- In front of the equals sign of an attribute, behind a blank. -/
  | equals
  /-- In front of the value of an attribute. -/
  | quotation
  /-- In a value between double quotation marks or apostrophes. -/
  | value (double : Bool)
  | valueReference (double : Bool)
  /-- Right behind the value of an attribute. -/
  | valueEnd
  /-- Behind the slash of a tag of an element without content. -/
  | emptyEnd
  /-- Behind the slash of an end tag. -/
  | endMark
  | endName
  /-- In an end tag, behind a blank. -/
  | endTag
  /-- Behind the exclamation mark of a comment or a section. -/
  | declaration
  /-- Behind the first hyphen of a comment. -/
  | commentMark
  | comment
  /-- In a comment, behind a hyphen. -/
  | commentHyphen
  /-- In a comment, behind two hyphens. -/
  | commentEnd
  /-- In the mark of a section, behind so many characters of the word in it. -/
  | cdataMark (read : Nat)
  /-- In a section, right behind so many closing brackets. -/
  | cdata (brackets : Nat)
  /-- Behind the question mark of an instruction. -/
  | instructionMark
  | target
  /-- Behind a question mark that follows the target at once. -/
  | targetEnd
  | instruction
  /-- In an instruction, behind a question mark. -/
  | instructionEnd
deriving DecidableEq

/-- What a character does to the names that the reader knows. -/
inductive Act where
  | keep
  | beginTag
  | extendTag
  | beginAttribute
  | extendAttribute
  | endAttribute
  | beginReference
  | extendReference
  | endReference
  | endTarget
  | openElement
  | closeElement
deriving DecidableEq

/-- The end of a tag, or a blank before a further part of it. -/
def tagPart (c : Char) : Option (Mode × Act) :=
  if isSpace c then some (.startTag, .keep)
  else if c = '/' then some (.emptyEnd, .keep)
  else if c = '>' then some (.text 0, .openElement)
  else none

/-- What stands between the two brackets in the mark of a section, with the second of them. -/
def cdataWord : List Char :=
  ['C', 'D', 'A', 'T', 'A', '[']

/-- What the reader is in the middle of behind a further character. -/
def Mode.next : Mode → Char → Option (Mode × Act)
  | text brackets, c =>
      if c = '<' then some (markup, .keep)
      else if c = '&' then some (reference, .beginReference)
      else if c = ']' then some (text (brackets + 1), .keep)
      else if c = '>' ∧ 2 ≤ brackets then none
      else some (text 0, .keep)
  | reference, c =>
      if c = ';' then some (text 0, .endReference)
      else if isNameChar c ∨ c = '#' then some (reference, .extendReference)
      else none
  | markup, c =>
      if c = '/' then some (endMark, .keep)
      else if c = '!' then some (declaration, .keep)
      else if c = '?' then some (instructionMark, .keep)
      else if isNameStart c then some (startName, .beginTag)
      else none
  | startName, c => if isNameChar c then some (startName, .extendTag) else tagPart c
  | startTag, c => if isNameStart c then some (attributeName, .beginAttribute) else tagPart c
  | attributeName, c =>
      if isNameChar c then some (attributeName, .extendAttribute)
      else if isSpace c then some (equals, .endAttribute)
      else if c = '=' then some (quotation, .endAttribute)
      else none
  | equals, c =>
      if isSpace c then some (equals, .keep)
      else if c = '=' then some (quotation, .keep)
      else none
  | quotation, c =>
      if isSpace c then some (quotation, .keep)
      else if c = '"' then some (value true, .keep)
      else if c = '\'' then some (value false, .keep)
      else none
  | value double, c =>
      if c = (if double then '"' else '\'') then some (valueEnd, .keep)
      else if c = '&' then some (valueReference double, .beginReference)
      else if c = '<' then none
      else some (value double, .keep)
  | valueReference double, c =>
      if c = ';' then some (value double, .endReference)
      else if isNameChar c ∨ c = '#' then some (valueReference double, .extendReference)
      else none
  | valueEnd, c => tagPart c
  | emptyEnd, c => if c = '>' then some (text 0, .keep) else none
  | endMark, c => if isNameStart c then some (endName, .beginTag) else none
  | endName, c =>
      if isNameChar c then some (endName, .extendTag)
      else if isSpace c then some (endTag, .keep)
      else if c = '>' then some (text 0, .closeElement)
      else none
  | endTag, c =>
      if isSpace c then some (endTag, .keep)
      else if c = '>' then some (text 0, .closeElement)
      else none
  | declaration, c =>
      if c = '-' then some (commentMark, .keep)
      else if c = '[' then some (cdataMark 0, .keep)
      else none
  | commentMark, c => if c = '-' then some (comment, .keep) else none
  | comment, c => if c = '-' then some (commentHyphen, .keep) else some (comment, .keep)
  | commentHyphen, c => if c = '-' then some (commentEnd, .keep) else some (comment, .keep)
  | commentEnd, c => if c = '>' then some (text 0, .keep) else none
  | cdataMark read, c =>
      if cdataWord[read]? = some c then
        some (if read = 5 then cdata 0 else cdataMark (read + 1), .keep)
      else none
  | cdata brackets, c =>
      if c = ']' then some (cdata (brackets + 1), .keep)
      else if c = '>' ∧ 2 ≤ brackets then some (text 0, .keep)
      else some (cdata 0, .keep)
  | instructionMark, c => if isNameStart c then some (target, .beginTag) else none
  | target, c =>
      if isNameChar c then some (target, .extendTag)
      else if isSpace c then some (instruction, .endTarget)
      else if c = '?' then some (targetEnd, .endTarget)
      else none
  | targetEnd, c => if c = '>' then some (text 0, .keep) else none
  | instruction, c =>
      if c = '?' then some (instructionEnd, .keep) else some (instruction, .keep)
  | instructionEnd, c =>
      if c = '>' then some (text 0, .keep)
      else if c = '?' then some (instructionEnd, .keep)
      else some (instruction, .keep)

/-- The name of a tag, those of its attributes, the last one first, and the text of a reference,
as far as they have been read. -/
structure Names where
  tag : List Char := []
  attributes : List (List Char) := []
  reference : List Char := []
deriving DecidableEq

/-- Whether a number is that of a character which a document may hold. -/
def isCharacterNumber (n : Nat) : Bool :=
  if h : n.isValidChar then isXmlChar (Char.ofNatAux n h) else false

/-- Whether digits in a base are the number of a character which a document may hold. -/
def isNumeral (base : Nat) (isDigitOf : Char → Bool) (digits : List Char) : Bool :=
  !digits.isEmpty && digits.all isDigitOf &&
    isCharacterNumber (digits.foldl (fun n c => base * n + (hexValue? c).getD 0) 0)

/-- Whether a text between an ampersand and a semicolon refers to a character. -/
def isReference : List Char → Bool
  | '#' :: 'x' :: digits => isNumeral 16 (fun c => (hexValue? c).isSome) digits
  | '#' :: digits => isNumeral 10 isDigit digits
  | name => (["lt", "gt", "amp", "apos", "quot"].map String.toList).contains name

/-- Change the names as a character asks for, unless they rule that out. -/
def Act.apply (act : Act) (c : Char) (names : Names) (opened : List (List Char)) :
    Option (Names × List (List Char)) :=
  match act with
  | keep => some (names, opened)
  | beginTag => some ({ tag := [c] }, opened)
  | extendTag => some ({ names with tag := names.tag ++ [c] }, opened)
  | beginAttribute => some ({ names with attributes := [c] :: names.attributes }, opened)
  | extendAttribute =>
      some ({ names with attributes := names.attributes.modifyHead (· ++ [c]) }, opened)
  | endAttribute => if names.attributes.Nodup then some (names, opened) else none
  | beginReference => some ({ names with reference := [] }, opened)
  | extendReference => some ({ names with reference := names.reference ++ [c] }, opened)
  | endReference => if isReference names.reference then some (names, opened) else none
  | endTarget =>
      -- the name of the declaration at the beginning of a document is reserved
      if names.tag.map lowerLetter = ['x', 'm', 'l'] then none else some (names, opened)
  | openElement => some (names, names.tag :: opened)
  | closeElement =>
      match opened with
      | [] => none
      | last :: rest => if last = names.tag then some (names, rest) else none

/-- A reader: what it is in the middle of, and the names that it knows. -/
structure State where
  mode : Mode
  names : Names
  opened : List (List Char)
deriving DecidableEq

/-- Behind a piece of markup nothing is kept of the names in it. -/
def Mode.kept : Mode → Names → Names
  | text _, _ => {}
  | _, names => names

namespace State

/-- Read a character. -/
def step (s : State) (c : Char) : Option State :=
  if isXmlChar c then
    (s.mode.next c).bind fun (mode, act) =>
      (act.apply c s.names s.opened).map fun (names, opened) => ⟨mode, mode.kept names, opened⟩
  else none

/-- Read a text. -/
def run (s : State) (t : List Char) : Option State :=
  t.foldlM step s

/-- In character data, inside elements that are open. -/
def content (brackets : Nat) (opened : List (List Char)) : State :=
  ⟨.text brackets, {}, opened⟩

/-- Whether a reader is done: in character data, with no element open. -/
def isDone (s : State) : Bool :=
  match s.mode with
  | .text _ => s.opened.isEmpty
  | _ => false

end State

end Fragment

open Fragment

/-- A well-formed fragment. -/
def IsFragment (text : String) : Prop :=
  ((State.content 0 []).run text.toList).any State.isDone = true

instance (text : String) : Decidable (IsFragment text) :=
  inferInstanceAs (Decidable (_ = true))

example : IsFragment "<b x='1'>a &lt; b</b ><!-- - --><p/>]]<![CDATA[<&]]]>>&#65;<?a b?>" := by
  decide

example : ¬ IsFragment "a < b" := by decide

namespace Fragment.State

variable {s s' : State} {t u : List Char} {c : Char} {opened base : List (List Char)} {n : Nat}

/-! ## Steps and runs -/

theorem run_append (s : State) (t u : List Char) :
    s.run (t ++ u) = (s.run t).bind (·.run u) :=
  List.foldlM_append

theorem run_cons (s : State) (c : Char) (t : List Char) :
    s.run (c :: t) = (s.step c).bind (·.run t) :=
  List.foldlM_cons

/-- What a step does: the names allow what the character asks for. -/
theorem step_eq_some_iff : s.step c = some s' ↔ isXmlChar c = true ∧ ∃ mode act names opened,
    s.mode.next c = some (mode, act) ∧ act.apply c s.names s.opened = some (names, opened) ∧
      s' = ⟨mode, mode.kept names, opened⟩ := by
  unfold step
  split
  next legal =>
    rw [and_iff_right legal, Option.bind_eq_some_iff]
    constructor
    · rintro ⟨⟨mode, act⟩, next, rest⟩
      obtain ⟨⟨names, opened⟩, applied, rfl⟩ := Option.map_eq_some_iff.mp rest
      exact ⟨mode, act, names, opened, next, applied, rfl⟩
    · rintro ⟨mode, act, names, opened, next, applied, rfl⟩
      exact ⟨(mode, act), next, Option.map_eq_some_iff.mpr ⟨_, applied, rfl⟩⟩
  next illegal => exact iff_of_false (Option.not_mem_none _) fun both => illegal both.1

/-- A reader that holds names only in the middle of markup. -/
def Tidy (s : State) : Prop :=
  s.mode.kept s.names = s.names

theorem tidy_content (n : Nat) (opened : List (List Char)) : (content n opened).Tidy :=
  rfl

theorem tidy_of_step (read : s.step c = some s') : s'.Tidy := by
  obtain ⟨-, mode, act, names, opened, -, -, rfl⟩ := step_eq_some_iff.mp read
  cases mode <;> rfl

theorem Tidy.run (tidy : s.Tidy) (read : s.run t = some s') : s'.Tidy := by
  induction t generalizing s with
  | nil =>
      cases read
      exact tidy
  | cons c t ih =>
      rw [run_cons, Option.bind_eq_some_iff] at read
      obtain ⟨between, first, rest⟩ := read
      exact ih (tidy_of_step first) rest

theorem Tidy.eq_content (tidy : s.Tidy) (inText : s.mode = .text n) :
    s = content n s.opened := by
  obtain ⟨mode, names, opened⟩ := s
  cases inText
  have empty : ({} : Names) = names := tidy
  rw [content, empty]

/-! ## Elements around a text -/

/-- A reader inside further elements. -/
def upon (s : State) (base : List (List Char)) : State :=
  { s with opened := s.opened ++ base }

/-- Only an end tag looks at the elements that are open, and then at the last one. -/
theorem apply_upon {act : Act} (names : Names) (nonempty : act = .closeElement → opened ≠ []) :
    act.apply c names (opened ++ base) =
      (act.apply c names opened).map fun (names, opened) => (names, opened ++ base) := by
  cases act with
  | closeElement =>
      obtain ⟨last, rest, rfl⟩ := List.exists_cons_of_ne_nil (nonempty rfl)
      simp only [List.cons_append, Act.apply]
      split <;> rfl
  | endAttribute | endReference | endTarget =>
      simp only [Act.apply]
      split <;> rfl
  | _ => rfl

/-- A step inside further elements, unless it is the end of one of them. -/
theorem step_upon (nonempty : ∀ m, s.mode.next c = some (m, .closeElement) → s.opened ≠ [])
    (base : List (List Char)) : (s.upon base).step c = (s.step c).map (upon · base) := by
  unfold step
  split
  next =>
    cases next : s.mode.next c with
    | none =>
        have same : (s.upon base).mode.next c = none := next
        rw [same]
        rfl
    | some x =>
        obtain ⟨mode, act⟩ := x
        have same : (s.upon base).mode.next c = some (mode, act) := next
        have applied : act.apply c (s.upon base).names (s.upon base).opened =
            (act.apply c s.names s.opened).map fun (names, opened) => (names, opened ++ base) :=
          apply_upon s.names fun closes => nonempty mode (closes ▸ next)
        rw [same, Option.bind_some, Option.bind_some]
        dsimp only
        rw [applied, Option.map_map, Option.map_map]
        rfl
  next => rfl

theorem ne_nil_of_closes {m : Mode} (read : s.step c = some s')
    (next : s.mode.next c = some (m, .closeElement)) : s.opened ≠ [] := by
  intro empty
  obtain ⟨-, mode, act, names, opened, next', applied, -⟩ := step_eq_some_iff.mp read
  rw [next'] at next
  cases next
  rw [empty, Act.apply] at applied
  cases applied

/-- Elements around a text do not matter to what is read without them. -/
theorem run_upon (read : s.run t = some s') : (s.upon base).run t = some (s'.upon base) := by
  induction t generalizing s with
  | nil =>
      cases read
      rfl
  | cons c t ih =>
      rw [run_cons, Option.bind_eq_some_iff] at read
      obtain ⟨between, first, rest⟩ := read
      rw [run_cons, step_upon (fun _ => ne_nil_of_closes first), first]
      exact ih rest

/-! ## Character data -/

/-- A character that is character data wherever it stands. -/
def isPlain (c : Char) : Bool :=
  isXmlChar c && c != '<' && c != '>' && c != '&' && c != ']'

/-- Text that is character data wherever it stands. -/
def PlainText (t : List Char) : Prop :=
  ∀ c ∈ t, isPlain c = true

instance (t : List Char) : Decidable (PlainText t) :=
  inferInstanceAs (Decidable (∀ c ∈ t, isPlain c = true))

theorem step_plain (plain : isPlain c = true) :
    (content n opened).step c = some (content 0 opened) := by
  simp only [isPlain, Bool.and_eq_true, bne_iff_ne] at plain
  obtain ⟨⟨⟨⟨legal, less⟩, greater⟩, reference⟩, bracket⟩ := plain
  have next : (Mode.text n).next c = some (.text 0, .keep) := by
    simp only [Mode.next, less, reference, bracket, greater, false_and, if_false]
  exact step_eq_some_iff.mpr ⟨legal, _, _, _, _, next, rfl, rfl⟩

theorem run_plain (plain : PlainText t) :
    (content 0 opened).run t = some (content 0 opened) := by
  induction t with
  | nil => rfl
  | cons c t ih =>
      obtain ⟨here, later⟩ := List.forall_mem_cons.mp plain
      rw [run_cons, step_plain here]
      exact ih later

/-- An escaped character is character data. -/
theorem run_xmlEscape (legal : isXmlChar c = true) :
    ∃ k, (content n opened).run (xmlEscape c) = some (content k opened) := by
  cases markup : isMarkupChar c with
  | true =>
      rcases eq_of_isMarkupChar markup with rfl | rfl | rfl | rfl | rfl <;> exact ⟨0, rfl⟩
  | false =>
      rw [(xmlEscape_of_not_isMarkupChar markup).1, run_cons]
      by_cases bracket : c = ']'
      · subst bracket
        exact ⟨n + 1, rfl⟩
      · simp only [isMarkupChar, Bool.or_eq_false_iff, beq_eq_false_iff_ne] at markup
        have plain : isPlain c = true := by
          simp [isPlain, legal, markup, bracket]
        rw [step_plain plain]
        exact ⟨0, rfl⟩

theorem run_escaped (legal : ∀ c ∈ t, isXmlChar c = true) :
    ∃ k, (content n opened).run (t.flatMap xmlEscape) = some (content k opened) := by
  induction t generalizing n with
  | nil => exact ⟨n, rfl⟩
  | cons c t ih =>
      obtain ⟨here, later⟩ := List.forall_mem_cons.mp legal
      obtain ⟨between, first⟩ : ∃ k, (content n opened).run (xmlEscape c) =
          some (content k opened) := run_xmlEscape here
      rw [List.flatMap_cons, run_append, first]
      exact ih later

/-! ## Markup that is not complete -/

/-- Markup in which a less-than sign means nothing. -/
inductive Lasts : Mode → Prop
  | comment : Lasts .comment
  | cdata : Lasts (.cdata 0)
  | instruction : Lasts .instruction

/-- A less-than sign stands in character data, or in markup that lasts. -/
theorem text_or_lasts {m m' : Mode} {act : Act} (next : m.next '<' = some (m', act)) :
    (∃ n, m = .text n) ∨ Lasts m' := by
  cases m with
  | text n => exact .inl ⟨n, rfl⟩
  | comment | commentHyphen =>
      cases next
      exact .inr .comment
  | cdata n =>
      cases next
      exact .inr .cdata
  | instruction | instructionEnd =>
      cases next
      exact .inr .instruction
  | value double => cases double <;> cases next
  | cdataMark read =>
      have other : cdataWord[read]? ≠ some '<' :=
        fun found => absurd (List.mem_of_getElem? found) (by decide)
      rw [Mode.next, if_neg other] at next
      cases next
  | _ => cases next

theorem Lasts.next {m : Mode} (lasts : Lasts m) (hyphen : c ≠ '-') (bracket : c ≠ ']')
    (question : c ≠ '?') : m.next c = some (m, .keep) := by
  cases lasts with
  | comment => exact if_neg hyphen
  | cdata => rw [Mode.next, if_neg bracket, if_neg fun both => absurd both.2 (by decide)]
  | instruction => exact if_neg question

theorem Lasts.run (lasts : Lasts s.mode) (read : s.run t = some s')
    (quiet : ∀ c ∈ t, c ≠ '-' ∧ c ≠ ']' ∧ c ≠ '?') : Lasts s'.mode := by
  induction t generalizing s with
  | nil =>
      cases read
      exact lasts
  | cons c t ih =>
      obtain ⟨⟨hyphen, bracket, question⟩, later⟩ := List.forall_mem_cons.mp quiet
      rw [run_cons, Option.bind_eq_some_iff] at read
      obtain ⟨between, first, rest⟩ := read
      obtain ⟨-, mode, act, names, opened, next, -, rfl⟩ := step_eq_some_iff.mp first
      rw [lasts.next hyphen bracket question] at next
      cases next
      have goesOn : Lasts (State.mk s.mode (s.mode.kept names) opened).mode := lasts
      exact ih goesOn rest later

/-- Where a tag that ends in character data follows, the reader is in character data. -/
theorem eq_content_of_run (tidy : s.Tidy) (read : s.run ('<' :: t) = some (content n opened))
    (quiet : ∀ c ∈ t, c ≠ '-' ∧ c ≠ ']' ∧ c ≠ '?') : ∃ k, s = content k s.opened := by
  rw [run_cons, Option.bind_eq_some_iff] at read
  obtain ⟨between, first, rest⟩ := read
  obtain ⟨-, mode, act, names, inside, next, -, rfl⟩ := step_eq_some_iff.mp first
  rcases text_or_lasts next with ⟨k, inText⟩ | lasts
  · exact ⟨k, tidy.eq_content inText⟩
  · cases lasts.run rest quiet

end Fragment.State

open Fragment.State

/-- A fragment leads from character data back to it. -/
theorem isFragment_iff {text : String} :
    IsFragment text ↔ ∃ n, (content 0 []).run text.toList = some (content n []) := by
  constructor
  · intro fragment
    rw [IsFragment] at fragment
    cases read : (content 0 []).run text.toList with
    | none =>
        rw [read] at fragment
        cases fragment
    | some s =>
        rw [read, Option.any_some, isDone] at fragment
        split at fragment
        next n inText =>
          refine ⟨n, congrArg some ?_⟩
          rw [((tidy_content 0 []).run read).eq_content inText, List.isEmpty_iff.mp fragment]
        next => cases fragment
  · rintro ⟨n, read⟩
    rw [IsFragment, read]
    rfl

/-- A fragment leads back to character data inside every element. -/
theorem IsFragment.exists_run {text : String} (h : IsFragment text) :
    ∃ n, ∀ opened, (content 0 opened).run text.toList = some (content n opened) := by
  obtain ⟨n, read⟩ := isFragment_iff.mp h
  exact ⟨n, fun opened => run_upon read⟩

end LearningStore.Xml
