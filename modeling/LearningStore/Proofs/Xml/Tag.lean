import LearningStore.Xml.Document
import LearningStore.Xml.Markup
import Mathlib.Data.List.TakeWhile

/-!
# Written tags are scanned

What a written tag is to the scanner: its name is a plain name, and every attribute value
comes back once its references are resolved.  Escaping keeps apart what ends a value and
what is part of it, so this holds of any value that XML can hold at all.
-/

namespace LearningStore.Xml

open LearningStore.Text

/-! ## Names -/

/-- A name without a colon that declares no namespace. -/
structure PlainName (name : String) : Prop where
  begins : beginsName name.toList = true
  chars : ∀ c ∈ name.toList, isNameChar c = true
  no_colon : ':' ∉ name.toList
  ne_xmlns : name ≠ "xmlns"

instance (name : String) : Decidable (PlainName name) :=
  decidable_of_iff
    (beginsName name.toList = true ∧ name.toList.all isNameChar = true ∧
      ':' ∉ name.toList ∧ name ≠ "xmlns")
    ⟨fun ⟨begins, chars, no_colon, ne_xmlns⟩ =>
        ⟨begins, List.all_eq_true.mp chars, no_colon, ne_xmlns⟩,
      fun h => ⟨h.begins, List.all_eq_true.mpr h.chars, h.no_colon, h.ne_xmlns⟩⟩

namespace PlainName

/-- The name begins with a character that no other markup begins with. -/
theorem exists_cons {name : String} (h : PlainName name) :
    ∃ first rest, name.toList = first :: rest ∧ isNameStart first = true := by
  have begins := h.begins
  cases spelled : name.toList with
  | nil => rw [spelled] at begins; cases begins
  | cons first rest =>
      rw [spelled] at begins
      exact ⟨first, rest, rfl, begins⟩

theorem ofRun {name : String} (h : PlainName name) :
    QName.ofRun? name.toList = some ⟨"", name⟩ := by
  have front : name.toList.takeWhile (· != ':') = name.toList :=
    List.takeWhile_eq_self_iff.mpr fun c inside =>
      bne_iff_ne.mpr fun same => h.no_colon (same ▸ inside)
  have back : name.toList.dropWhile (· != ':') = [] :=
    List.dropWhile_eq_nil_iff.mpr fun c inside =>
      bne_iff_ne.mpr fun same => h.no_colon (same ▸ inside)
  unfold QName.ofRun?
  simp only [front, back, h.begins, if_true, String.ofList_toList]

end PlainName

/-- A run of characters of a class ends where another character comes. -/
theorem takeWhile_run {run rest : List Char} {d : Char} {p : Char → Bool}
    (inside : ∀ c ∈ run, p c = true) (stop : p d = false) :
    (run ++ d :: rest).takeWhile p = run := by
  rw [List.takeWhile_append_of_pos inside, List.takeWhile_cons_of_neg (by simp [stop]),
    List.append_nil]

namespace Cursor

/-- A plain name is read up to the first character that no name holds. -/
theorem qname_eq_ok {c : Cursor} {name : String} {d : Char} {rest : List Char}
    (plain : PlainName name) (stop : isNameChar d = false)
    (here : c.rest = name.toList ++ d :: rest) :
    ∃ after : Cursor, after.rest = d :: rest ∧ c.qname = .ok (⟨"", name⟩, after) := by
  have run : c.rest.takeWhile isNameChar = name.toList := by
    rw [here]
    exact takeWhile_run plain.chars stop
  refine ⟨c.advance name.toList.length, ?_, ?_⟩
  · rw [advance, here, List.drop_left]
  · unfold qname
    simp only [run, plain.ofRun]

theorem skipSpaces_of_not_isSpace {c : Cursor} {d : Char} {rest : List Char}
    (here : c.rest = d :: rest) (solid : isSpace d = false) : c.skipSpaces = c := by
  unfold skipSpaces
  rw [here, List.takeWhile_cons_of_neg (by simp [solid]),
    List.dropWhile_cons_of_neg (by simp [solid]), ← here]
  rfl

theorem skipChar_eq_ok {c : Cursor} {d : Char} {rest : List Char} (here : c.rest = d :: rest) :
    ∃ after : Cursor, after.rest = rest ∧ c.skipChar d = .ok after := by
  refine ⟨c.advance 1, by rw [advance, here]; rfl, ?_⟩
  unfold skipChar
  rw [here]
  exact if_pos rfl

end Cursor

/-! ## Values -/

/-- A character that the value of an attribute gives back when it is read.  A blank other
than a space would come back as a space. -/
def IsValueChar (c : Char) : Prop :=
  isXmlChar c = true ∧ (isSpace c = true → c = ' ')

instance (c : Char) : Decidable (IsValueChar c) :=
  inferInstanceAs (Decidable (_ ∧ _))

/-- What an escaped character is once references are resolved. -/
def pieceOf (c : Char) : Piece :=
  match c with
  | '<' | '>' | '&' | '\'' | '"' => .referred c
  | c => .written c

/-- The characters that are written by reference. -/
def isMarkupChar (c : Char) : Bool :=
  c == '<' || c == '>' || c == '&' || c == '\'' || c == '"'

theorem xmlEscape_of_not_isMarkupChar {c : Char} (h : isMarkupChar c = false) :
    xmlEscape c = [c] ∧ pieceOf c = .written c := by
  simp only [isMarkupChar, Bool.or_eq_false_iff, beq_eq_false_iff_ne] at h
  obtain ⟨⟨⟨⟨lt, gt⟩, amp⟩, apos⟩, quot⟩ := h
  unfold xmlEscape pieceOf
  constructor <;> split <;> simp_all

theorem eq_of_isMarkupChar {c : Char} (h : isMarkupChar c = true) :
    c = '<' ∨ c = '>' ∨ c = '&' ∨ c = '\'' ∨ c = '"' := by
  simpa [isMarkupChar, or_assoc] using h

/-- Escaped text holds nothing that ends the value of an attribute. -/
theorem mem_xmlEscape {c d : Char} (xml : isXmlChar c = true) (member : d ∈ xmlEscape c) :
    isXmlChar d = true ∧ d ≠ '"' ∧ d ≠ '<' := by
  cases markup : isMarkupChar c with
  | true =>
      have spelled : (xmlEscape c).all (fun d => isXmlChar d && d != '"' && d != '<') = true := by
        rcases eq_of_isMarkupChar markup with rfl | rfl | rfl | rfl | rfl <;> decide
      simpa [and_assoc] using List.all_eq_true.mp spelled d member
  | false =>
      rw [(xmlEscape_of_not_isMarkupChar markup).1, List.mem_singleton] at member
      subst member
      simp only [isMarkupChar, Bool.or_eq_false_iff, beq_eq_false_iff_ne] at markup
      exact ⟨xml, markup.2, markup.1.1.1.1⟩

/-- Every character that is written by reference is read back. -/
theorem ofRaw_escaped {c : Char} (markup : isMarkupChar c = true) (offset : Nat)
    (rest : List Char) :
    ∃ after, Piece.ofRaw 0 offset (xmlEscape c ++ rest) =
      (Piece.ofRaw 0 after rest).map (.referred c :: ·) := by
  rcases eq_of_isMarkupChar markup with rfl | rfl | rfl | rfl | rfl
  · exact ⟨offset + 4, rfl⟩
  · exact ⟨offset + 4, rfl⟩
  · exact ⟨offset + 5, rfl⟩
  · exact ⟨offset + 6, rfl⟩
  · exact ⟨offset + 6, rfl⟩

/-- Resolving the references of an escaped text gives its characters, each marked by how it
was written. -/
theorem ofRaw_flatMap_xmlEscape (value : List Char) (offset : Nat) :
    Piece.ofRaw 0 offset (value.flatMap xmlEscape) = .ok (value.map pieceOf) := by
  induction value generalizing offset with
  | nil => rfl
  | cons c rest ih =>
      rw [List.flatMap_cons, List.map_cons]
      cases markup : isMarkupChar c with
      | true =>
          obtain ⟨after, read⟩ := ofRaw_escaped markup offset (rest.flatMap xmlEscape)
          have piece : pieceOf c = .referred c := by
            rcases eq_of_isMarkupChar markup with rfl | rfl | rfl | rfl | rfl <;> rfl
          rw [read, ih after, piece]
          rfl
      | false =>
          obtain ⟨escaped, piece⟩ := xmlEscape_of_not_isMarkupChar markup
          have plain : c ≠ '&' := by
            rintro rfl
            cases markup
          rw [escaped, piece, List.singleton_append, Piece.ofRaw, if_neg plain, ih]
          rfl

/-- Blanks apart, the value of an attribute is the text that was escaped. -/
theorem attributeValue_map_pieceOf {value : List Char} (chars : ∀ c ∈ value, IsValueChar c) :
    Piece.attributeValue (value.map pieceOf) = value := by
  induction value with
  | nil => rfl
  | cons c rest ih =>
      obtain ⟨here, others⟩ := List.forall_mem_cons.mp chars
      rw [List.map_cons]
      cases markup : isMarkupChar c with
      | true =>
          have piece : pieceOf c = .referred c := by
            rcases eq_of_isMarkupChar markup with rfl | rfl | rfl | rfl | rfl <;> rfl
          rw [piece, Piece.attributeValue, ih others]
      | false =>
          have noReturn : c ≠ '\r' := by
            rintro rfl
            exact absurd (here.2 rfl) (by decide)
          have kept : (if isSpace c then ' ' else c) = c := by
            split
            next space => exact (here.2 space).symm
            next => rfl
          rw [(xmlEscape_of_not_isMarkupChar markup).2, Piece.attributeValue, ih others, kept]
          exact fun _ _ isReturn => noReturn isReturn

namespace Cursor

/-- A raw value ends at its quotation mark. -/
theorem takeUntil_quote {raw : List Char} (rest : List Char) (offset : Nat)
    (plain : ∀ c ∈ raw, isXmlChar c = true ∧ c ≠ '"' ∧ c ≠ '<') :
    ∃ after : Cursor, after.rest = '"' :: rest ∧
      takeUntil (fun l => l.head? = some '"' || l.head? = some '<') offset
        (raw ++ '"' :: rest) = .ok (raw, after) := by
  induction raw generalizing offset with
  | nil => exact ⟨⟨offset, '"' :: rest⟩, rfl, rfl⟩
  | cons c raw ih =>
      obtain ⟨⟨xml, noQuote, noTag⟩, others⟩ := List.forall_mem_cons.mp plain
      obtain ⟨after, stopped, taken⟩ := ih (offset + 1) others
      refine ⟨after, stopped, ?_⟩
      rw [List.cons_append, takeUntil]
      simp [xml, noQuote, noTag, taken]

/-- A written attribute is one token, whose raw value is the escaped text. -/
theorem attributeToken_eq_ok {c : Cursor} {key : String} {value rest : List Char}
    (plain : PlainName key) (chars : ∀ d ∈ value, IsValueChar d)
    (here : c.rest = key.toList ++ '=' :: '"' :: (value.flatMap xmlEscape ++ '"' :: rest)) :
    ∃ (at' : Nat) (after : Cursor), after.rest = rest ∧
      c.attributeToken =
        .ok (.attribute c.offset ⟨"", key⟩ at' (value.flatMap xmlEscape), after) := by
  obtain ⟨named, atEquals, name⟩ := qname_eq_ok plain (by decide) here
  have spaces : named.skipSpaces = named := skipSpaces_of_not_isSpace atEquals (by decide)
  obtain ⟨equals, atQuote, equal⟩ := skipChar_eq_ok atEquals
  have spaces' : equals.skipSpaces = equals := skipSpaces_of_not_isSpace atQuote (by decide)
  have quote : equals.quote = .ok ('"', equals.advance 1) := by
    unfold Cursor.quote
    rw [atQuote]
    rfl
  have inside : (equals.advance 1).rest = value.flatMap xmlEscape ++ '"' :: rest := by
    rw [advance, atQuote]
    rfl
  have raw : ∀ d ∈ value.flatMap xmlEscape, isXmlChar d = true ∧ d ≠ '"' ∧ d ≠ '<' := by
    intro d member
    obtain ⟨e, found, spelled⟩ := List.mem_flatMap.mp member
    exact mem_xmlEscape (chars e found).1 spelled
  obtain ⟨closing, atClosing, taken⟩ := takeUntil_quote rest (equals.advance 1).offset raw
  obtain ⟨after, behind, closed⟩ := skipChar_eq_ok atClosing
  refine ⟨(equals.advance 1).offset, after, behind, ?_⟩
  unfold attributeToken
  rw [name]
  simp only [bind, Except.bind, spaces, equal, spaces', quote, inside, taken, closed]
  rfl

end Cursor

end LearningStore.Xml
