import LearningStore.Proofs.Text.Utf16
import LearningStore.Text.Encoding

/-!
# Texts in their encodings

A file holds a text behind a byte order mark in the encoding of the mark, or without a mark in
UTF-8, or, where its bytes are not UTF-8, one character for each byte.  These ways exclude each
other, so the encoding that is guessed from the bytes is the one in which they were written.
-/

namespace LearningStore.Text

namespace Encoding

/-- The byte order mark of an encoding. -/
def mark : Encoding → List UInt8
  | utf8 => [0xEF, 0xBB, 0xBF]
  | utf16LowFirst => [0xFF, 0xFE]
  | utf16HighFirst => [0xFE, 0xFF]

/-- The bytes of a text in an encoding, without a mark. -/
def encode (e : Encoding) (t : String) : List UInt8 :=
  match e with
  | utf8 => t.toUTF8.data.toList
  | utf16LowFirst => Utf16.bytesLowFirst (Utf16.units t.toList)
  | utf16HighFirst => Utf16.bytesHighFirst (Utf16.units t.toList)

/-- A mark is the character U+FEFF in its encoding. -/
theorem mark_eq_encode (e : Encoding) : e.mark = e.encode "\uFEFF" := by
  cases e <;> decide

section Decoding

variable {e : Encoding} {t : String} {bytes rest : List UInt8}

theorem fromUTF8?_eq_some_iff :
    String.fromUTF8? ⟨bytes.toArray⟩ = some t ↔ bytes = t.toUTF8.data.toList := by
  unfold String.fromUTF8?
  constructor
  · intro decoded
    split at decoded
    next =>
      cases decoded
      rfl
    next => cases decoded
  · rintro rfl
    have valid : (⟨t.toUTF8.data.toList.toArray⟩ : ByteArray).IsValidUTF8 := t.isValidUTF8
    rw [dif_pos valid]
    rfl

/-- Units that are read from their bytes are decoded from the bytes of the text. -/
theorem decodeUnits_eq_some_iff_of_bytes {read : List UInt8 → Option (List Nat)}
    {write : List Nat → List UInt8}
    (units : ∀ us, read bytes = some us ↔ Utf16.Wide us ∧ bytes = write us) :
    ((read bytes).bind Utf16.decodeUnits).map String.ofList = some t ↔
      bytes = write (Utf16.units t.toList) := by
  rw [Option.map_eq_some_iff]
  constructor
  · rintro ⟨s, decoded, rfl⟩
    obtain ⟨us, found, decoded⟩ := Option.bind_eq_some_iff.mp decoded
    obtain ⟨wide, written⟩ := (units us).mp found
    rw [String.toList_ofList, written, (Utf16.decodeUnits_eq_some_iff wide).mp decoded]
  · intro written
    have found := (units _).mpr ⟨Utf16.wide_units t.toList, written⟩
    exact ⟨t.toList, Option.bind_eq_some_iff.mpr ⟨_, found, Utf16.decodeUnits_units _⟩,
      String.ofList_toList⟩

/-- The bytes of a text are decoded to it, and only they are. -/
theorem decode?_eq_some_iff : e.decode? bytes = some t ↔ bytes = e.encode t := by
  cases e with
  | utf8 => exact fromUTF8?_eq_some_iff
  | utf16LowFirst =>
      exact decodeUnits_eq_some_iff_of_bytes fun _ => Utf16.unitsLowFirst_eq_some_iff
  | utf16HighFirst =>
      exact decodeUnits_eq_some_iff_of_bytes fun _ => Utf16.unitsHighFirst_eq_some_iff

theorem decode?_eq_none_iff : e.decode? bytes = none ↔ ∀ t, bytes ≠ e.encode t := by
  rw [Option.eq_none_iff_forall_ne_some]
  exact forall_congr' fun t => not_congr decode?_eq_some_iff

/-! ## Marks -/

theorem marked?_eq_some_iff : marked? bytes = some (e, rest) ↔ bytes = e.mark ++ rest := by
  constructor
  · unfold marked?
    split <;> rintro ⟨⟩ <;> rfl
  · rintro rfl
    cases e <;> rfl

/-- A file without a byte order mark. -/
def Unmarked (bytes : List UInt8) : Prop :=
  ∀ e : Encoding, ¬ e.mark <+: bytes

theorem marked?_eq_none_iff : marked? bytes = none ↔ Unmarked bytes := by
  constructor
  · rintro unmarked e ⟨rest, rfl⟩
    rw [marked?_eq_some_iff.mpr rfl] at unmarked
    cases unmarked
  · intro unmarked
    cases found : marked? bytes with
    | none => rfl
    | some x =>
        obtain ⟨e, rest⟩ := x
        exact absurd ⟨rest, (marked?_eq_some_iff.mp found).symm⟩ (unmarked e)

end Decoding

/-! ## Marks and UTF-8 -/

section Utf8

variable {e : Encoding} {t : String} {bytes rest : List UInt8}

/-- A text in UTF-8 is its characters in UTF-8, one behind the other. -/
theorem encode_utf8 (t : String) : utf8.encode t = t.toList.flatMap String.utf8EncodeChar := by
  conv_lhs => rw [← String.ofList_toList (s := t)]
  rw [encode, String.toUTF8_eq_toByteArray, String.toByteArray_ofList, List.utf8Encode,
    List.data_toByteArray]

/-- No character in UTF-8 begins with one of the bytes F5 to FF. -/
theorem first_utf8EncodeChar (c : Char) :
    ∃ first rest, String.utf8EncodeChar c = first :: rest ∧ first.toNat < 0xF5 := by
  have valid : c.toNat < 0xD800 ∨ 0xDFFF < c.toNat ∧ c.toNat < 0x110000 := c.valid
  rw [String.utf8EncodeChar, Char.toNat_val]
  split
  next => exact ⟨_, _, rfl, by rw [UInt8.toNat_ofNat']; omega⟩
  split
  next => exact ⟨_, _, rfl, by rw [UInt8.toNat_ofNat']; omega⟩
  split
  next => exact ⟨_, _, rfl, by rw [UInt8.toNat_ofNat']; omega⟩
  next => exact ⟨_, _, rfl, by rw [UInt8.toNat_ofNat']; omega⟩

/-- Only U+FEFF is EF BB BF in UTF-8. -/
theorem eq_of_utf8EncodeChar {c : Char}
    (spelled : 0xEF :: 0xBB :: 0xBF :: rest = String.utf8EncodeChar c ++ bytes) :
    c = '\uFEFF' := by
  have valid : c.toNat < 0xD800 ∨ 0xDFFF < c.toNat ∧ c.toNat < 0x110000 := c.valid
  have byte {n : Nat} {b : UInt8} (same : b = UInt8.ofNat n) : b.toNat = n % 256 := by
    rw [same, UInt8.toNat_ofNat']
  have lead : (0xEF : UInt8).toNat = 0xEF := rfl
  rw [String.utf8EncodeChar, Char.toNat_val] at spelled
  split at spelled
  next =>
    have first := byte (List.cons.inj spelled).1
    omega
  split at spelled
  next =>
    have first := byte (List.cons.inj spelled).1
    omega
  split at spelled
  next =>
    obtain ⟨first, spelled⟩ := List.cons.inj spelled
    obtain ⟨second, spelled⟩ := List.cons.inj spelled
    obtain ⟨third, -⟩ := List.cons.inj spelled
    have first' := byte first
    have second' : 0xBB = _ := byte second
    have third' : 0xBF = _ := byte third
    refine Char.toNat_inj.mp (?_ : c.toNat = 0xFEFF)
    omega
  next =>
    have first := byte (List.cons.inj spelled).1
    omega

/-- A text in UTF-8 begins with a mark exactly if its first character is U+FEFF, and then the mark
is that of UTF-8. -/
theorem mark_prefix_utf8_iff :
    e.mark <+: utf8.encode t ↔ e = utf8 ∧ t.toList.head? = some '\uFEFF' := by
  rw [encode_utf8]
  constructor
  · rintro ⟨rest, spelled⟩
    cases chars : t.toList with
    | nil =>
        rw [chars] at spelled
        cases e <;> cases spelled
    | cons c s =>
        rw [chars, List.flatMap_cons] at spelled
        obtain ⟨first, behind, encoded, below⟩ := first_utf8EncodeChar c
        cases e with
        | utf8 => exact ⟨rfl, congrArg some (eq_of_utf8EncodeChar spelled)⟩
        | utf16LowFirst | utf16HighFirst =>
            rw [encoded] at spelled
            rw [← (List.cons.inj spelled).1] at below
            exact absurd below (by decide)
  · rintro ⟨rfl, marked⟩
    obtain ⟨s, chars⟩ := List.head?_eq_some_iff.mp marked
    rw [mark_eq_encode, encode_utf8, chars, List.flatMap_cons]
    exact List.prefix_append _ _

/-- A text in UTF-8 is taken for one without a mark exactly if it does not begin with U+FEFF. -/
theorem unmarked_utf8_iff : Unmarked (utf8.encode t) ↔ t.toList.head? ≠ some '\uFEFF' := by
  constructor
  · exact fun unmarked marked => unmarked utf8 (mark_prefix_utf8_iff.mpr ⟨rfl, marked⟩)
  · exact fun plain e marks => plain (mark_prefix_utf8_iff.mp marks).2

end Utf8

end Encoding

/-! ## Files -/

open Encoding

/-- How a file holds a text. -/
inductive Holds : List UInt8 → String → Prop where
  /-- Behind a byte order mark, in the encoding of the mark. -/
  | marked (e : Encoding) (t : String) : Holds (e.mark ++ e.encode t) t
  /-- In UTF-8 without a mark. -/
  | plain {t : String} (unmarked : t.toList.head? ≠ some '\uFEFF') : Holds (utf8.encode t) t
  /-- As one character for each byte, where the bytes are not UTF-8. -/
  | single {bytes : List UInt8} (unmarked : Unmarked bytes) (other : ∀ t, bytes ≠ utf8.encode t) :
      Holds bytes (String.ofList (bytes.map Windows1252.charOf))

section Files

variable {bytes : List UInt8} {t : String} {e : Encoding}

theorem textOfBytes_marked (e : Encoding) (rest : List UInt8) :
    textOfBytes (e.mark ++ rest) = match e.decode? rest with
      | some t => .ok t
      | none => .error e := by
  rewrite [textOfBytes, marked?_eq_some_iff.mpr rfl]
  rfl

theorem textOfBytes_unmarked (unmarked : Unmarked bytes) :
    textOfBytes bytes = match utf8.decode? bytes with
      | some t => .ok t
      | none => .ok (String.ofList (Windows1252.decode bytes)) := by
  rewrite [textOfBytes, marked?_eq_none_iff.mpr unmarked]
  rfl

/-- A file holds a text exactly if that text is read from it. -/
theorem textOfBytes_eq_ok_iff : textOfBytes bytes = .ok t ↔ Holds bytes t := by
  constructor
  · intro read
    cases found : marked? bytes with
    | some x =>
        obtain ⟨e, rest⟩ := x
        obtain rfl := marked?_eq_some_iff.mp found
        rw [textOfBytes_marked] at read
        cases decoded : e.decode? rest with
        | some text =>
            rw [decoded] at read
            cases read
            rw [decode?_eq_some_iff.mp decoded]
            exact .marked e t
        | none =>
            rw [decoded] at read
            cases read
    | none =>
        have unmarked := marked?_eq_none_iff.mp found
        rw [textOfBytes_unmarked unmarked] at read
        cases decoded : utf8.decode? bytes with
        | some text =>
            rw [decoded] at read
            cases read
            obtain rfl := decode?_eq_some_iff.mp decoded
            exact .plain (unmarked_utf8_iff.mp unmarked)
        | none =>
            rw [decoded] at read
            cases read
            exact .single unmarked (decode?_eq_none_iff.mp decoded)
  · intro holds
    cases holds with
    | marked e => rw [textOfBytes_marked, decode?_eq_some_iff.mpr rfl]
    | plain unmarked =>
        rw [textOfBytes_unmarked (unmarked_utf8_iff.mpr unmarked), decode?_eq_some_iff.mpr rfl]
    | single unmarked other =>
        rw [textOfBytes_unmarked unmarked, decode?_eq_none_iff.mpr other, Windows1252.decode]

/-- Only a file whose bytes are no text of the encoding of its mark holds no text. -/
theorem textOfBytes_eq_error_iff :
    textOfBytes bytes = .error e ↔ ∃ rest, bytes = e.mark ++ rest ∧ ∀ t, rest ≠ e.encode t := by
  constructor
  · intro failed
    cases found : marked? bytes with
    | some x =>
        obtain ⟨e', rest⟩ := x
        obtain rfl := marked?_eq_some_iff.mp found
        rw [textOfBytes_marked] at failed
        cases decoded : e'.decode? rest with
        | some text =>
            rw [decoded] at failed
            cases failed
        | none =>
            rw [decoded] at failed
            cases failed
            exact ⟨rest, rfl, decode?_eq_none_iff.mp decoded⟩
    | none =>
        rw [textOfBytes_unmarked (marked?_eq_none_iff.mp found)] at failed
        cases decoded : utf8.decode? bytes with
        | some text =>
            rw [decoded] at failed
            cases failed
        | none =>
            rw [decoded] at failed
            cases failed
  · rintro ⟨rest, rfl, other⟩
    rw [textOfBytes_marked, decode?_eq_none_iff.mpr other]

end Files

end LearningStore.Text
