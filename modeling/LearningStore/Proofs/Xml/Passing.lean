import LearningStore.Proofs.Results
import LearningStore.Xml.Document
import Mathlib.Data.List.TakeWhile

/-!
# What tokens pass over

Every token is scanned by passing over the characters in front of it and its own.  Where a token
says that it starts or stops is where the scanner is before or behind these characters.
-/

namespace LearningStore.Xml

namespace Cursor

/-- The scanner gets from one place to another over these characters. -/
def Passes (c : Cursor) (chars : List Char) (after : Cursor) : Prop :=
  c.rest = chars ++ after.rest ∧ after.offset = c.offset + chars.length

variable {c after : Cursor} {chars : List Char}

theorem Passes.trans {more : List Char} {later : Cursor} (first : c.Passes chars after)
    (second : after.Passes more later) : c.Passes (chars ++ more) later := by
  refine ⟨?_, ?_⟩
  · rw [first.1, second.1, List.append_assoc]
  · rw [second.2, first.2, List.length_append, Nat.add_assoc]

theorem passes_nil (c : Cursor) : c.Passes [] c :=
  ⟨rfl, rfl⟩

theorem Passes.lt (passed : c.Passes chars after) (some_chars : chars ≠ []) :
    c.offset < after.offset := by
  rw [passed.2]
  exact Nat.lt_add_of_pos_right (List.length_pos_of_ne_nil some_chars)

theorem passes_advance {rest : List Char} (here : c.rest = chars ++ rest) :
    c.Passes chars (c.advance chars.length) := by
  refine ⟨?_, rfl⟩
  rw [advance, here, List.drop_left]

theorem passes_skipSpaces (c : Cursor) :
    c.Passes (c.rest.takeWhile isSpace) c.skipSpaces :=
  ⟨List.takeWhile_append_dropWhile.symm, rfl⟩

theorem passes_skipChar {expected : Char} (read : c.skipChar expected = .ok after) :
    c.Passes [expected] after := by
  unfold skipChar at read
  split at read
  next => cases read
  next d rest here =>
    split at read
    next same =>
      cases read
      exact passes_advance (same ▸ here)
    next => cases read

theorem exists_of_startsWith {text : String} (starts : c.startsWith text = true) :
    ∃ rest, c.rest = text.toList ++ rest := by
  obtain ⟨rest, whole⟩ := List.isPrefixOf_iff_prefix.mp starts
  exact ⟨rest, whole.symm⟩

theorem passes_skipText {text : String} (read : c.skipText text = .ok after) :
    c.Passes text.toList after := by
  unfold skipText at read
  split at read
  next starts =>
    cases read
    obtain ⟨rest, here⟩ := exists_of_startsWith starts
    rw [← String.length_toList]
    exact passes_advance here
  next => cases read

/-- What is taken ends where the rest is to stop, and nowhere before. -/
theorem passes_takeUntil {stop : List Char → Bool} {offset : Nat} {s taken : List Char}
    (read : takeUntil stop offset s = .ok (taken, after)) :
    s = taken ++ after.rest ∧ after.offset = offset + taken.length ∧
      ∀ d ∈ taken, ∃ rest, stop (d :: rest) = false := by
  induction s generalizing offset taken with
  | nil =>
      cases read
      exact ⟨rfl, rfl, nofun⟩
  | cons d rest ih =>
      rw [takeUntil] at read
      split at read
      next => cases read
      next =>
        split at read
        next =>
          cases read
          exact ⟨rfl, rfl, nofun⟩
        next goes =>
          split at read
          next => cases read
          next taken' after' found =>
            cases read
            obtain ⟨whole, place, each⟩ := ih found
            refine ⟨by rw [whole]; rfl, ?_, List.forall_mem_cons.mpr ⟨⟨rest, ?_⟩, each⟩⟩
            · rw [place, List.length_cons]
              omega
            · exact Bool.eq_false_iff.mpr goes

theorem passes_takeUntilText {text : String} (read : c.takeUntilText text = .ok (chars, after)) :
    c.Passes chars after :=
  have found := passes_takeUntil read
  ⟨found.1, found.2.1⟩

theorem passes_run (c : Cursor) :
    c.Passes (c.rest.takeWhile isNameChar)
      (c.advance (c.rest.takeWhile isNameChar).length) :=
  passes_advance List.takeWhile_append_dropWhile.symm

theorem passes_qname {name : QName} (read : c.qname = .ok (name, after)) :
    c.Passes (c.rest.takeWhile isNameChar) after := by
  unfold qname at read
  dsimp only at read
  split at read
  next =>
    cases read
    exact passes_run c
  next => cases read

theorem passes_target {u : Unit} (read : c.target = .ok (u, after)) :
    c.Passes (c.rest.takeWhile isNameChar) after := by
  unfold target at read
  dsimp only at read
  split at read
  next =>
    cases read
    exact passes_run c
  next => cases read

theorem passes_quote {mark : Char} (read : c.quote = .ok (mark, after)) :
    c.Passes [mark] after ∧ (mark = '"' ∨ mark = '\'') := by
  unfold quote at read
  split at read
  next => cases read
  next d rest here =>
    split at read
    next isMark =>
      cases read
      exact ⟨passes_advance here, isMark.symm⟩
    next => cases read

end Cursor

/-! ## The text of tags -/

/-- What stands in a tag behind its name: characters that are no marks of tags or quotations, and
quotations, which may hold any mark but their own and the one that begins a tag. -/
inductive TagBody : List Char → Prop where
  | nil : TagBody []
  | char {c : Char} {rest : List Char}
      (plain : c ≠ '<' ∧ c ≠ '>' ∧ c ≠ '/' ∧ c ≠ '"' ∧ c ≠ '\'') (more : TagBody rest) :
      TagBody (c :: rest)
  | quoted {mark : Char} {value rest : List Char} (quote : mark = '"' ∨ mark = '\'')
      (inside : mark ∉ value ∧ '<' ∉ value) (more : TagBody rest) :
      TagBody (mark :: (value ++ mark :: rest))

/-- A start tag ends at the first mark of its end outside quotations. -/
def IsStartTag (s : List Char) : Prop :=
  ∃ body, s = '<' :: (body ++ ['>']) ∧ TagBody body

/-- The tag of an element without content. -/
def IsEmptyTag (s : List Char) : Prop :=
  ∃ body, s = '<' :: (body ++ ['/', '>']) ∧ TagBody body

def IsEndTag (s : List Char) : Prop :=
  ∃ body, s = '<' :: '/' :: (body ++ ['>']) ∧ TagBody body

theorem TagBody.append {a b : List Char} (first : TagBody a) (second : TagBody b) :
    TagBody (a ++ b) := by
  induction first with
  | nil => exact second
  | char plain _ ih => exact .char plain ih
  | quoted quote inside _ ih =>
      rw [List.cons_append, List.append_assoc, List.cons_append]
      exact .quoted quote inside ih

theorem tagBody_of_forall {p : Char → Bool} {s : List Char} (each : ∀ c ∈ s, p c = true)
    (plain : p '<' = false ∧ p '>' = false ∧ p '/' = false ∧ p '"' = false ∧ p '\'' = false) :
    TagBody s := by
  induction s with
  | nil => exact .nil
  | cons c rest ih =>
      obtain ⟨here, others⟩ := List.forall_mem_cons.mp each
      have other {d : Char} (not : p d = false) : c ≠ d := by
        rintro rfl
        rw [here] at not
        cases not
      exact .char ⟨other plain.1, other plain.2.1, other plain.2.2.1, other plain.2.2.2.1,
        other plain.2.2.2.2⟩ (ih others)

theorem tagBody_spaces (s : List Char) : TagBody (s.takeWhile isSpace) :=
  tagBody_of_forall (fun _ inside => List.mem_takeWhile_imp inside) (by decide)

theorem tagBody_run (s : List Char) : TagBody (s.takeWhile isNameChar) :=
  tagBody_of_forall (fun _ inside => List.mem_takeWhile_imp inside) (by decide)

/-! ## Tokens -/

/-- The stretch of a token that is character data. -/
def Token.data? : Token → Option Span
  | .text span _ => some span
  | .cdata span _ => some span
  | _ => none

theorem Token.data?_eq_some {t : Token} {span : Span} (data : t.data? = some span) :
    (∃ raw, t = .text span raw) ∨ ∃ raw, t = .cdata span raw := by
  cases t with
  | text place raw =>
      cases data
      exact .inl ⟨raw, rfl⟩
  | cdata place raw =>
      cases data
      exact .inr ⟨raw, rfl⟩
  | _ => cases data

/-- A comment or an instruction on a stretch. -/
def Token.IsNote (t : Token) (span : Span) : Prop :=
  t = .comment span ∨ t = .instruction span

namespace Cursor

variable {c after : Cursor} {t : Token}

theorem attributeToken_eq_ok_imp (read : c.attributeToken = .ok (t, after)) :
    ∃ body name valueStart raw, c.Passes body after ∧ TagBody body ∧
      t = .attribute c.offset name valueStart raw := by
  unfold attributeToken at read
  obtain ⟨⟨name, c₁⟩, named, read⟩ := bind_eq_ok.mp read
  obtain ⟨c₂, equals, read⟩ := bind_eq_ok.mp read
  obtain ⟨⟨mark, c₃⟩, quoted, read⟩ := bind_eq_ok.mp read
  obtain ⟨⟨raw, c₄⟩, taken, read⟩ := bind_eq_ok.mp read
  obtain ⟨c₅, closed, read⟩ := bind_eq_ok.mp read
  cases read
  obtain ⟨atMark, quote⟩ := passes_quote quoted
  obtain ⟨whole, place, each⟩ := passes_takeUntil taken
  have inside : mark ∉ raw ∧ '<' ∉ raw := by
    constructor
    · intro member
      obtain ⟨rest, goes⟩ := each mark member
      simp at goes
    · intro member
      obtain ⟨rest, goes⟩ := each '<' member
      simp at goes
  have behindEquals := (passes_skipSpaces c₁).trans (passes_skipChar equals)
  have behindMark := (passes_skipSpaces c₂).trans atMark
  have behindValue : c₃.Passes (raw ++ [mark]) after :=
    Passes.trans ⟨whole, place⟩ (passes_skipChar closed)
  refine ⟨_, name, c₃.offset, raw,
    (passes_qname named).trans (behindEquals.trans (behindMark.trans behindValue)), ?_, rfl⟩
  have equal : TagBody ['='] := .char (by decide) .nil
  refine (tagBody_run _).append (((tagBody_spaces _).append equal).append ?_)
  rw [List.append_assoc]
  refine (tagBody_spaces _).append ?_
  rw [List.singleton_append]
  exact .quoted quote inside .nil

theorem commentToken_eq_ok_imp (starts : c.startsWith "<!--" = true)
    (read : c.commentToken = .ok (t, after)) :
    ∃ chars, c.Passes chars after ∧ t = .comment ⟨c.offset, after.offset⟩ := by
  obtain ⟨rest, here⟩ := exists_of_startsWith starts
  unfold commentToken at read
  obtain ⟨⟨raw, c₁⟩, taken, read⟩ := bind_eq_ok.mp read
  obtain ⟨c₂, ended, read⟩ := bind_eq_ok.mp read
  split at read
  next => cases read
  next =>
    cases read
    exact ⟨_, (passes_advance here).trans ((passes_takeUntilText taken).trans
      (passes_skipText ended)), rfl⟩

theorem instructionToken_eq_ok_imp {rest : List Char} (here : c.rest = '<' :: '?' :: rest)
    (read : c.instructionToken = .ok (t, after)) :
    ∃ chars, c.Passes chars after ∧ t = .instruction ⟨c.offset, after.offset⟩ := by
  unfold instructionToken at read
  split at read
  next => cases read
  next =>
    obtain ⟨⟨u, c₁⟩, named, read⟩ := bind_eq_ok.mp read
    obtain ⟨⟨raw, c₂⟩, taken, read⟩ := bind_eq_ok.mp read
    obtain ⟨c₃, ended, read⟩ := bind_eq_ok.mp read
    cases read
    have front : c.Passes ['<', '?'] (c.advance 2) := passes_advance here
    exact ⟨_, front.trans ((passes_target named).trans ((passes_skipSpaces c₁).trans
      ((passes_takeUntilText taken).trans (passes_skipText ended)))), rfl⟩

theorem cdataToken_eq_ok_imp (starts : c.startsWith "<![CDATA[" = true)
    (read : c.cdataToken = .ok (t, after)) :
    ∃ chars, c.Passes chars after ∧ chars ≠ [] ∧ t.data? = some ⟨c.offset, after.offset⟩ := by
  obtain ⟨rest, here⟩ := exists_of_startsWith starts
  unfold cdataToken at read
  obtain ⟨⟨raw, c₁⟩, taken, read⟩ := bind_eq_ok.mp read
  obtain ⟨c₂, ended, read⟩ := bind_eq_ok.mp read
  cases read
  exact ⟨_, (passes_advance here).trans ((passes_takeUntilText taken).trans
    (passes_skipText ended)), List.append_ne_nil_of_left_ne_nil (by decide) _, rfl⟩

theorem textToken_eq_ok_imp {d : Char} {rest : List Char} (here : c.rest = d :: rest)
    (other : d ≠ '<') (read : c.textToken = .ok (t, after)) :
    ∃ chars, c.Passes chars after ∧ chars ≠ [] ∧ t.data? = some ⟨c.offset, after.offset⟩ := by
  unfold textToken at read
  obtain ⟨⟨raw, c₁⟩, taken, read⟩ := bind_eq_ok.mp read
  dsimp only at read
  split at read
  next => cases read
  next =>
    cases read
    obtain ⟨whole, place, -⟩ := passes_takeUntil taken
    refine ⟨raw, ⟨whole, place⟩, ?_, rfl⟩
    rintro rfl
    -- The text would have to stop right where it starts.
    rw [here, takeUntil] at taken
    split at taken
    next => cases taken
    next =>
      rw [if_neg (by simp [other])] at taken
      split at taken <;> cases taken

theorem startTagToken_eq_ok_imp {rest : List Char} (here : c.rest = '<' :: rest)
    (read : c.startTagToken = .ok (t, after)) :
    ∃ body name, c.Passes ('<' :: body) after ∧ TagBody body ∧ t = .startTag c.offset name := by
  unfold startTagToken at read
  obtain ⟨⟨name, c₁⟩, named, read⟩ := bind_eq_ok.mp read
  cases read
  have front : c.Passes ['<'] (c.advance 1) := passes_advance here
  exact ⟨_, name, front.trans (passes_qname named), tagBody_run _, rfl⟩

theorem endTagToken_eq_ok_imp {rest : List Char} (here : c.rest = '<' :: '/' :: rest)
    (read : c.endTagToken = .ok (t, after)) :
    ∃ chars name, c.Passes chars after ∧ IsEndTag chars ∧
      t = .endTag ⟨c.offset, after.offset⟩ name := by
  unfold endTagToken at read
  obtain ⟨⟨name, c₁⟩, named, read⟩ := bind_eq_ok.mp read
  obtain ⟨c₂, closed, read⟩ := bind_eq_ok.mp read
  cases read
  have front : c.Passes ['<', '/'] (c.advance 2) := passes_advance here
  refine ⟨_, name, front.trans ((passes_qname named).trans ((passes_skipSpaces c₁).trans
    (passes_skipChar closed))), ?_, rfl⟩
  refine ⟨(c.advance 2).rest.takeWhile isNameChar ++ c₁.rest.takeWhile isSpace, ?_,
    (tagBody_run _).append (tagBody_spaces _)⟩
  simp

/-! ## Before the first token -/

theorem exists_passes_declarationSpace (read : c.declarationSpace = .ok after) :
    ∃ chars, c.Passes chars after := by
  unfold declarationSpace at read
  split at read
  next =>
    cases read
    exact ⟨[], passes_nil c⟩
  next =>
    split at read
    next =>
      cases read
      exact ⟨_, passes_skipSpaces c⟩
    next =>
      split at read
      next =>
        cases read
        exact ⟨[], passes_nil c⟩
      next => cases read

theorem exists_passes_attributeToken (read : c.attributeToken = .ok (t, after)) :
    ∃ chars, c.Passes chars after := by
  obtain ⟨body, -, -, -, passed, -⟩ := attributeToken_eq_ok_imp read
  exact ⟨body, passed⟩

theorem exists_passes_declarationPart {name : String}
    (read : c.declarationPart name = .ok after) : ∃ chars, c.Passes chars after := by
  unfold declarationPart at read
  split at read
  next =>
    obtain ⟨⟨t, c₁⟩, part, spaced⟩ := bind_eq_ok.mp read
    obtain ⟨a, first⟩ := exists_passes_attributeToken part
    obtain ⟨b, second⟩ := exists_passes_declarationSpace spaced
    exact ⟨a ++ b, first.trans second⟩
  next =>
    cases read
    exact ⟨[], passes_nil c⟩

theorem exists_passes_skipDeclaration (read : c.skipDeclaration = .ok after) :
    ∃ chars, c.Passes chars after := by
  unfold skipDeclaration at read
  split at read
  next starts =>
    obtain ⟨rest, here⟩ := exists_of_startsWith starts
    obtain ⟨c₁, first, read⟩ := bind_eq_ok.mp read
    obtain ⟨-, -, read⟩ := bind_eq_ok.mp read
    obtain ⟨⟨t₁, c₂⟩, version, read⟩ := bind_eq_ok.mp read
    obtain ⟨c₃, spaced, read⟩ := bind_eq_ok.mp read
    obtain ⟨c₄, encoding, read⟩ := bind_eq_ok.mp read
    have mark : c.rest = "<?xml".toList ++ ' ' :: rest := here
    have front : c.Passes "<?xml".toList (c.advance 5) := passes_advance mark
    obtain ⟨a, passed₁⟩ := exists_passes_declarationSpace first
    obtain ⟨b, passed₂⟩ := exists_passes_attributeToken version
    obtain ⟨d, passed₃⟩ := exists_passes_declarationSpace spaced
    obtain ⟨e, passed₄⟩ := exists_passes_declarationPart encoding
    have before := front.trans (passed₁.trans (passed₂.trans (passed₃.trans passed₄)))
    split at read
    next =>
      obtain ⟨⟨t₂, c₅⟩, standalone, read⟩ := bind_eq_ok.mp read
      obtain ⟨f, passed₅⟩ := exists_passes_attributeToken standalone
      exact ⟨_, before.trans (passed₅.trans ((passes_skipSpaces c₅).trans
        (passes_skipText read)))⟩
    next => exact ⟨_, before.trans ((passes_skipSpaces c₄).trans (passes_skipText read))⟩
  next =>
    cases read
    exact ⟨[], passes_nil c⟩

theorem exists_passes_skipMark (c : Cursor) : ∃ chars, c.Passes chars c.skipMark := by
  unfold skipMark
  split
  next rest here => exact ⟨['\ufeff'], passes_advance here⟩
  next => exact ⟨[], passes_nil c⟩

end Cursor

/-! ## Steps -/

/-- What a step of the scanner can do, by the region in which it starts. -/
inductive Scans : Region → Cursor → Token → Region → Cursor → Prop where
  | outside {region : Region} {c after : Cursor} {t : Token} {chars : List Char} {span : Span}
      (outer : region = .prologue ∨ region = .epilogue) (passed : c.Passes chars after)
      (note : t.IsNote span) : Scans region c t region after
  | root {c start after : Cursor} {blanks body : List Char} {name : QName}
      (before : c.Passes blanks start) (passed : start.Passes ('<' :: body) after)
      (inside : TagBody body) : Scans .prologue c (.startTag start.offset name) (.tag 0) after
  | pair {depth start valueStart : Nat} {c after : Cursor} {body raw : List Char}
      {name : QName} (passed : c.Passes body after) (inside : TagBody body) :
      Scans (.tag depth) c (.attribute start name valueStart raw) (.tag depth) after
  | emptyEnd {depth : Nat} {c after : Cursor} {body : List Char}
      (passed : c.Passes (body ++ ['/', '>']) after) (inside : TagBody body) :
      Scans (.tag depth) c (.tagEnd false after.offset) (Step.within depth) after
  | startEnd {depth : Nat} {c after : Cursor} {body : List Char}
      (passed : c.Passes (body ++ ['>']) after) (inside : TagBody body) :
      Scans (.tag depth) c (.tagEnd true after.offset) (.content (depth + 1)) after
  | child {depth : Nat} {c after : Cursor} {body : List Char} {name : QName}
      (passed : c.Passes ('<' :: body) after) (inside : TagBody body) :
      Scans (.content depth) c (.startTag c.offset name) (.tag depth) after
  | close {depth : Nat} {c after : Cursor} {chars : List Char} {name : QName}
      (passed : c.Passes chars after) (written : IsEndTag chars) :
      Scans (.content depth) c (.endTag ⟨c.offset, after.offset⟩ name)
        (Step.within (depth - 1)) after
  | data {depth : Nat} {c after : Cursor} {t : Token} {chars : List Char}
      (passed : c.Passes chars after) (nonempty : chars ≠ [])
      (data : t.data? = some ⟨c.offset, after.offset⟩) :
      Scans (.content depth) c t (.content depth) after
  | note {depth : Nat} {c after : Cursor} {t : Token} {chars : List Char}
      (passed : c.Passes chars after) (note : t.IsNote ⟨c.offset, after.offset⟩) :
      Scans (.content depth) c t (.content depth) after

theorem Scans.passes {region region' : Region} {c after : Cursor} {t : Token}
    (scans : Scans region c t region' after) : ∃ chars, c.Passes chars after := by
  cases scans with
  | outside _ passed _ => exact ⟨_, passed⟩
  | root first passed _ => exact ⟨_, first.trans passed⟩
  | pair passed _ => exact ⟨_, passed⟩
  | emptyEnd passed _ => exact ⟨_, passed⟩
  | startEnd passed _ => exact ⟨_, passed⟩
  | child passed _ => exact ⟨_, passed⟩
  | close passed _ => exact ⟨_, passed⟩
  | data passed _ _ => exact ⟨_, passed⟩
  | note passed _ => exact ⟨_, passed⟩

section Steps

variable {region region' : Region} {c after : Cursor} {t : Token}

theorem ofScan_eq_scanned {read : Except ScanError (Token × Cursor)}
    (scanned : Step.ofScan region read = .scanned t region' after) :
    read = .ok (t, after) ∧ region = region' := by
  unfold Step.ofScan at scanned
  split at scanned
  next => cases scanned
  next =>
    cases scanned
    exact ⟨rfl, rfl⟩

/-- A comment outside the root element. -/
theorem scans_of_comment (outer : region = .prologue ∨ region = .epilogue)
    (starts : c.skipSpaces.startsWith "<!--" = true)
    (scanned : Step.ofScan region c.skipSpaces.commentToken = .scanned t region' after) :
    Scans region c t region' after := by
  obtain ⟨read, rfl⟩ := ofScan_eq_scanned scanned
  obtain ⟨chars, passed, same⟩ := Cursor.commentToken_eq_ok_imp starts read
  exact .outside outer ((Cursor.passes_skipSpaces c).trans passed) (.inl same)

/-- An instruction outside the root element. -/
theorem scans_of_instruction (outer : region = .prologue ∨ region = .epilogue)
    (starts : c.skipSpaces.startsWith "<?" = true)
    (scanned : Step.ofScan region c.skipSpaces.instructionToken = .scanned t region' after) :
    Scans region c t region' after := by
  obtain ⟨rest, here⟩ := Cursor.exists_of_startsWith starts
  obtain ⟨read, rfl⟩ := ofScan_eq_scanned scanned
  obtain ⟨chars, passed, same⟩ := Cursor.instructionToken_eq_ok_imp here read
  exact .outside outer ((Cursor.passes_skipSpaces c).trans passed) (.inr same)

theorem scans_of_inPrologue (scanned : Step.inPrologue c = .scanned t region' after) :
    Scans .prologue c t region' after := by
  unfold Step.inPrologue at scanned
  dsimp only at scanned
  split at scanned
  next => cases scanned
  next =>
    split at scanned
    next starts => exact scans_of_comment (.inl rfl) starts scanned
    next =>
      split at scanned
      next starts => exact scans_of_instruction (.inl rfl) starts scanned
      next =>
        split at scanned
        next => cases scanned
        next =>
          split at scanned
          next starts =>
            obtain ⟨rest, here⟩ := Cursor.exists_of_startsWith starts
            obtain ⟨read, rfl⟩ := ofScan_eq_scanned scanned
            obtain ⟨body, name, passed, inside, rfl⟩ := Cursor.startTagToken_eq_ok_imp here read
            exact .root (Cursor.passes_skipSpaces c) passed inside
          next => cases scanned

theorem scans_of_inEpilogue (scanned : Step.inEpilogue c = .scanned t region' after) :
    Scans .epilogue c t region' after := by
  unfold Step.inEpilogue at scanned
  dsimp only at scanned
  split at scanned
  next => cases scanned
  next =>
    split at scanned
    next starts => exact scans_of_comment (.inr rfl) starts scanned
    next =>
      split at scanned
      next starts => exact scans_of_instruction (.inr rfl) starts scanned
      next => cases scanned

theorem scans_of_inTag {depth : Nat} (scanned : Step.inTag depth c = .scanned t region' after) :
    Scans (.tag depth) c t region' after := by
  have spaces := Cursor.passes_skipSpaces c
  have blank := tagBody_spaces c.rest
  unfold Step.inTag at scanned
  dsimp only at scanned
  split at scanned
  next => split at scanned <;> cases scanned
  next rest here =>
    split at scanned
    next => cases scanned
    next stop closed =>
      cases scanned
      have slash : c.skipSpaces.Passes ['/'] (c.skipSpaces.advance 1) := Cursor.passes_advance here
      exact .emptyEnd (spaces.trans (slash.trans (Cursor.passes_skipChar closed))) blank
  next rest here =>
    cases scanned
    have mark : c.skipSpaces.Passes ['>'] (c.skipSpaces.advance 1) := Cursor.passes_advance here
    exact .startEnd (spaces.trans mark) blank
  next =>
    split at scanned
    next =>
      obtain ⟨read, rfl⟩ := ofScan_eq_scanned scanned
      obtain ⟨body, name, valueStart, raw, passed, inside, rfl⟩ :=
        Cursor.attributeToken_eq_ok_imp read
      exact .pair (spaces.trans passed) (blank.append inside)
    next => cases scanned

theorem scans_of_inContent {depth : Nat}
    (scanned : Step.inContent depth c = .scanned t region' after) :
    Scans (.content depth) c t region' after := by
  unfold Step.inContent at scanned
  split at scanned
  next => cases scanned
  next => cases scanned
  next rest here =>
    split at scanned
    next starts =>
      obtain ⟨read, rfl⟩ := ofScan_eq_scanned scanned
      obtain ⟨chars, passed, same⟩ := Cursor.commentToken_eq_ok_imp starts read
      exact .note passed (.inl same)
    next =>
      split at scanned
      next starts =>
        obtain ⟨read, rfl⟩ := ofScan_eq_scanned scanned
        obtain ⟨chars, passed, nonempty, data⟩ := Cursor.cdataToken_eq_ok_imp starts read
        exact .data passed nonempty data
      next => cases scanned
  next rest here =>
    obtain ⟨read, rfl⟩ := ofScan_eq_scanned scanned
    obtain ⟨chars, passed, same⟩ := Cursor.instructionToken_eq_ok_imp here read
    exact .note passed (.inr same)
  next rest here =>
    obtain ⟨read, rfl⟩ := ofScan_eq_scanned scanned
    obtain ⟨chars, name, passed, written, rfl⟩ := Cursor.endTagToken_eq_ok_imp here read
    exact .close passed written
  next here =>
    obtain ⟨read, rfl⟩ := ofScan_eq_scanned scanned
    obtain ⟨body, name, passed, inside, rfl⟩ := Cursor.startTagToken_eq_ok_imp here read
    exact .child passed inside
  next some_char _ _ _ _ other =>
    obtain ⟨read, rfl⟩ := ofScan_eq_scanned scanned
    cases here : c.rest with
    | nil => exact absurd here some_char
    | cons d rest =>
        have noTag : d ≠ '<' := by
          rintro rfl
          exact other rest here
        obtain ⟨chars, passed, nonempty, data⟩ := Cursor.textToken_eq_ok_imp here noTag read
        exact .data passed nonempty data

/-- Every step of the scanner does one of these things. -/
theorem scans_of_next (scanned : Step.next region c = .scanned t region' after) :
    Scans region c t region' after := by
  cases region with
  | prologue => exact scans_of_inPrologue scanned
  | tag depth => exact scans_of_inTag scanned
  | content depth => exact scans_of_inContent scanned
  | epilogue => exact scans_of_inEpilogue scanned

end Steps

end LearningStore.Xml
