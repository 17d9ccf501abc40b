import LearningStore.Proofs.Value.Base64
import LearningStore.Proofs.Value.Constant
import LearningStore.Proofs.Value.Guid
import LearningStore.Proofs.Value.Integer
import LearningStore.Proofs.Value.OneLine

/-!
# Constants give back their values

A server reads a constant as a text, where an apostrophe inside is written twice, as bytes behind
`0x`, or as an integer.  What it reads of the constant for a literal is the value that the text of
the literal denotes.
-/

namespace LearningStore.Value

open LearningStore.Text

/-! ## What a constant denotes -/

inductive Constant where
  | integer (n : Int)
  | text (s : List Char)
  | bytes (bs : List UInt8)
deriving DecidableEq, Repr

namespace Constant

/-- The text behind an apostrophe, up to the apostrophe at its end. -/
def unquoted? : List Char → Option (List Char)
  | [] => none
  | ['\''] => some []
  | '\'' :: '\'' :: rest => (unquoted? rest).map ('\'' :: ·)
  | '\'' :: _ => none
  | c :: rest => (unquoted? rest).map (c :: ·)

/-- The bytes of pairs of hexadecimal digits. -/
def bytes? : List Char → Option (List UInt8)
  | [] => some []
  | [_] => none
  | a :: b :: rest =>
      match hexValue? a, hexValue? b, bytes? rest with
      | some high, some low, some bs => some (UInt8.ofNat (16 * high + low) :: bs)
      | _, _, _ => none

/-- What a server reads. -/
def read? : List Char → Option Constant
  | '\'' :: rest => (unquoted? rest).map text
  | '0' :: 'x' :: digits => (bytes? digits).map bytes
  | s => (Integer.signed? s).map integer

example : read? "'it''s'".toList = some (.text "it's".toList) := by decide

theorem unquoted?_doubleApostrophes (s : List Char) :
    unquoted? (doubleApostrophes s ++ ['\'']) = some s := by
  induction s with
  | nil => rfl
  | cons c rest ih =>
      rw [doubleApostrophes]
      split
      next apostrophe => simp [unquoted?, ih, apostrophe]
      next plain => simp [unquoted?, plain, ih]

theorem read?_sqlString (text : String) :
    read? (sqlString text).toList = some (.text text.toList) := by
  rw [sqlString, String.toList_ofList, List.cons_append, read?, unquoted?_doubleApostrophes]
  rfl

theorem mem_integerText {n : Int} {c : Char} (inside : c ∈ (integerText n).toList) :
    c = '-' ∨ isDigit c = true := by
  cases n with
  | ofNat m =>
      rw [integerText, String.toList_ofList] at inside
      exact .inr (Integer.isDigit_of_mem_digitsOf inside)
  | negSucc m =>
      rw [integerText, String.toList_ofList] at inside
      exact (List.mem_cons.mp inside).imp_right Integer.isDigit_of_mem_digitsOf

theorem read?_integerText (n : Int) : read? (integerText n).toList = some (.integer n) := by
  have plain {c : Char} (other : c ≠ '-' ∧ isDigit c = false) : c ∉ (integerText n).toList :=
    fun inside => (mem_integerText inside).elim other.1 (by simp [other.2])
  unfold read?
  split
  next spelled => exact absurd (spelled ▸ List.mem_cons_self) (plain (by decide))
  next digits spelled =>
    have inside : 'x' ∈ (integerText n).toList :=
      spelled ▸ List.mem_cons_of_mem _ List.mem_cons_self
    exact absurd inside (plain (by decide))
  next =>
    rw [Integer.signed?_integerText]
    rfl

/-! ## Bytes -/

/-- The hexadecimal digits with capital letters. -/
def capitals : List Char :=
  "0123456789ABCDEF".toList

/-- Two hexadecimal digits for each byte. -/
def hexText (bs : List UInt8) : List Char :=
  bs.flatMap fun b => [capitals.getD (b.toNat / 16) '?', capitals.getD (b.toNat % 16) '?']

theorem hexPair_eq (b : UInt8) : Literal.hexPair b = hexText [b] := by
  have all : ∀ n < 16, (Nat.digitChar n).toUpper = capitals.getD n '?' := by decide
  have small := b.toNat_lt
  rw [Literal.hexPair, all _ (by omega), all _ (by omega)]
  rfl

theorem bytes?_hexText (bs : List UInt8) : bytes? (hexText bs) = some bs := by
  have all : ∀ n < 16, hexValue? (capitals.getD n '?') = some n := by decide
  induction bs with
  | nil => rfl
  | cons b rest ih =>
      have small := b.toNat_lt
      have halves : 16 * (b.toNat / 16) + b.toNat % 16 = b.toNat := by omega
      have cons : hexText (b :: rest) = capitals.getD (b.toNat / 16) '?' ::
          capitals.getD (b.toNat % 16) '?' :: hexText rest := rfl
      rw [cons, bytes?, all _ (by omega), all _ (by omega), ih]
      dsimp only
      rw [halves, UInt8.ofNat_toNat]

theorem sqlConstant_byteArray (bs : List UInt8) :
    (Literal.byteArray bs).sqlConstant.toList = '0' :: 'x' :: hexText bs := by
  have pairs : bs.flatMap Literal.hexPair = hexText bs :=
    List.flatMap_congr fun b _ => by rw [hexPair_eq]; rfl
  rw [Literal.sqlConstant, String.toList_ofList, pairs]

end Constant

/-! ## What a text denotes -/

namespace Integer

/-- The number that decimal digits denote. -/
def magnitude (digits : List Char) : Nat :=
  Nat.ofDigits 10 (digits.map digitValue).reverse

/-- An optional sign and decimal digits, with the integer that they denote. -/
inductive Denotes : List Char → Int → Prop where
  | plain {digits : List Char} (some_digit : digits ≠ [])
      (each : ∀ c ∈ digits, isDigit c = true) : Denotes digits (magnitude digits)
  | plus {digits : List Char} (some_digit : digits ≠ [])
      (each : ∀ c ∈ digits, isDigit c = true) : Denotes ('+' :: digits) (magnitude digits)
  | minus {digits : List Char} (some_digit : digits ≠ [])
      (each : ∀ c ∈ digits, isDigit c = true) : Denotes ('-' :: digits) (-magnitude digits)

theorem magnitude_eq (digits : List Char) : magnitude digits = numberOfDigits digits := by
  rw [magnitude, Nat.ofDigits_eq_foldr, List.foldr_reverse, List.foldl_map, numberOfDigits]
  refine congrArg (fun f => List.foldl f 0 digits) (funext fun n => funext fun c => ?_)
  exact Nat.add_comm ..

theorem natural?_eq_some {digits : List Char} {n : Nat} (read : natural? digits = some n) :
    digits ≠ [] ∧ (∀ c ∈ digits, isDigit c = true) ∧ n = magnitude digits := by
  unfold natural? at read
  split at read
  next => cases read
  next plain =>
    cases read
    simp only [Bool.or_eq_true, Bool.not_eq_true', not_or, Bool.not_eq_true,
      Bool.not_eq_false] at plain
    exact ⟨List.isEmpty_eq_false_iff.mp plain.1, List.all_eq_true.mp plain.2,
      (magnitude_eq digits).symm⟩

theorem denotes_of_signed {s : List Char} {n : Int} (read : signed? s = some n) :
    Denotes s n := by
  unfold signed? at read
  split at read
  all_goals
    obtain ⟨_, converted, rfl⟩ := Option.map_eq_some_iff.mp read
    obtain ⟨m, found, ⟨rfl⟩⟩ := Option.bind_eq_some_iff.mp converted
    obtain ⟨some_digit, each, rfl⟩ := natural?_eq_some found
  · exact .minus some_digit each
  · exact .plus some_digit each
  · exact .plain some_digit each

/-- An integer that is read is the one that its text denotes, and has 32 bits. -/
theorem denotes_of_read {s : List Char} {n : Int} (read : read? s = some n) :
    Denotes s n ∧ least ≤ n ∧ n ≤ greatest := by
  obtain ⟨found, bounds⟩ := Option.filter_eq_some_iff.mp read
  exact ⟨denotes_of_signed found, by simpa using bounds⟩

end Integer

theorem boolean?_eq_some {s : List Char} {b : Bool} (read : boolean? s = some b) :
    String.ofList (trim s) ∈ if b then ["true", "1"] else ["false", "0"] := by
  unfold boolean? at read
  split at read <;> cases read <;> simp [*]

/-! ## Constants of literals -/

/-- What the text of a literal and its constant have to do with each other, by value type.  Blanks
at the ends of a text count in the types String and Xml only. -/
inductive GivesBack : ValueType → List Char → List Char → Prop where
  | string {text constant : List Char} (read : Constant.read? constant = some (.text text)) :
      GivesBack .string text constant
  | xml {text constant : List Char} (one_line : '\r' ∉ constant ∧ '\n' ∉ constant)
      (read : Constant.read? constant = some (.text (flattened text))) :
      GivesBack .xml text constant
  | integer {type : ValueType} {text constant : List Char} {n : Int}
      (whole : type = .int32 ∨ type = .enumeration) (denoted : Integer.Denotes (trim text) n)
      (range : -2147483648 ≤ n ∧ n ≤ 2147483647)
      (decimal : ∀ c ∈ constant, c = '-' ∨ isDigit c = true)
      (read : Constant.read? constant = some (.integer n)) : GivesBack type text constant
  | yes {text : List Char} (spelled : String.ofList (trim text) ∈ ["true", "1"]) :
      GivesBack .boolean text ['1']
  | no {text : List Char} (spelled : String.ofList (trim text) ∈ ["false", "0"]) :
      GivesBack .boolean text ['0']
  | byteArray {text : List Char} {bytes : List UInt8}
      (encoded : (text.filter fun c => !isBlank c) = Base64.encode bytes)
      (read : Constant.read? ('0' :: 'x' :: Constant.hexText bytes) = some (.bytes bytes)) :
      GivesBack .byteArray text ('0' :: 'x' :: Constant.hexText bytes)
  | guid {text digits constant : List Char} (are : Guid.AreDigits digits)
      (spelled : Guid.Spells (trim text) digits) (size : Guid.number digits < 2 ^ 128)
      (quoted : constant = '\'' :: Guid.form (Guid.number digits) ++ ['\''])
      (read : Constant.read? constant = some (.text (Guid.form (Guid.number digits)))) :
      GivesBack .guid text constant

theorem filter_trim (s : List Char) :
    ((trim s).filter fun c => !isBlank c) = s.filter fun c => !isBlank c := by
  obtain ⟨a, b, whole, front, back⟩ := exists_trim s
  have none_of {t : List Char} (blank : Blanks t) : (t.filter fun c => !isBlank c) = [] :=
    List.filter_eq_nil_iff.mpr fun c inside => by simp [blank c inside]
  conv_rhs => rw [whole, List.filter_append, List.filter_append, none_of front, none_of back,
    List.nil_append, List.append_nil]

theorem mem_of_mem_doubleApostrophes {c : Char} {s : List Char}
    (inside : c ∈ doubleApostrophes s) : c ∈ s := by
  induction s with
  | nil => exact inside
  | cons d rest ih =>
      rw [doubleApostrophes] at inside
      split at inside
      next apostrophe =>
        rw [List.mem_cons, List.mem_cons, ← apostrophe] at inside
        exact List.mem_cons.mpr (inside.elim .inl fun later => later.imp_right ih)
      next => exact List.mem_cons.mpr ((List.mem_cons.mp inside).imp_right ih)

theorem givesBack_xml (text : String) :
    GivesBack .xml text.toList (Literal.xml text).sqlConstant.toList := by
  have plain {c : Char} (lineEnd : c = '\r' ∨ c = '\n') :
      c ∉ (Literal.xml text).sqlConstant.toList := by
    have other : c ≠ '\'' := by rcases lineEnd with rfl | rfl <;> decide
    rw [Literal.sqlConstant, sqlString, String.toList_ofList, String.toList_ofList, onOneLine_eq]
    simp only [List.cons_append, List.mem_cons, List.mem_append, List.not_mem_nil, or_false,
      not_or]
    exact ⟨other, fun inside =>
      notMem_flattened text.toList lineEnd (mem_of_mem_doubleApostrophes inside), other⟩
  refine .xml ⟨plain (.inl rfl), plain (.inr rfl)⟩ ?_
  rw [Literal.sqlConstant, Constant.read?_sqlString, String.toList_ofList, onOneLine_eq]

theorem givesBack_guid {text : String} {g : Guid} (read : Guid.read? (trim text.toList) = some g) :
    GivesBack .guid text.toList (Literal.guid g).sqlConstant.toList := by
  obtain ⟨digits, are, spelled, same⟩ := Guid.read?_eq_some_iff.mp read
  have form := Guid.hyphenated_eq are same
  have quoted : (Literal.guid g).sqlConstant.toList =
      '\'' :: Guid.form (Guid.number digits) ++ ['\''] := by
    simp [Literal.sqlConstant, form]
  have plain := apostrophe_notMem_hyphenated g
  have size := Guid.number_lt digits
  rw [form, String.toList_ofList] at plain
  rw [are.length] at size
  refine .guid are spelled size quoted ?_
  have unquoted := Constant.unquoted?_doubleApostrophes (Guid.form (Guid.number digits))
  rw [doubleApostrophes_eq_self plain] at unquoted
  rw [quoted, List.cons_append, Constant.read?, unquoted]
  rfl

theorem givesBack_integer {type : ValueType} {text : String} {n : Int}
    (whole : type = .int32 ∨ type = .enumeration)
    (read : Integer.read? (trim text.toList) = some n) :
    GivesBack type text.toList (integerText n).toList := by
  obtain ⟨denoted, range⟩ := Integer.denotes_of_read read
  exact .integer whole denoted range (fun c inside => Constant.mem_integerText inside)
    (Constant.read?_integerText n)

theorem givesBack_boolean {text : String} {b : Bool} (read : boolean? (trim text.toList) = some b) :
    GivesBack .boolean text.toList (Literal.boolean b).sqlConstant.toList := by
  have spelled := boolean?_eq_some read
  rw [trim_trim] at spelled
  cases b with
  | true => exact .yes spelled
  | false => exact .no spelled

theorem givesBack_byteArray {text : String} {bytes : List UInt8}
    (read : Base64.decode (String.ofList
      ((trim text.toList).filter fun c => !isBlank c)).toUTF8.data.toList = .ok bytes) :
    GivesBack .byteArray text.toList (Literal.byteArray bytes).sqlConstant.toList := by
  have encoded := Base64.toList_of_decode read
  rw [String.toList_ofList, filter_trim] at encoded
  rw [Constant.sqlConstant_byteArray]
  refine .byteArray encoded ?_
  rw [Constant.read?, Constant.bytes?_hexText]
  rfl

/-- The constant of every literal gives back the value that the text of the literal denotes.  Dates
and numbers with a point have theories of their own. -/
theorem givesBack_of_read {type : ValueType} {text : String} {l : Literal}
    (plain : type ≠ .dateTime ∧ type ≠ .double ∧ type ≠ .single)
    (accepted : Literal.read type text = .ok l) :
    GivesBack type text.toList l.sqlConstant.toList := by
  unfold Literal.read at accepted
  cases type with
  | itemIdentifier => cases accepted
  | dateTime => exact absurd rfl plain.1
  | single => exact absurd rfl plain.2.2
  | double => exact absurd rfl plain.2.1
  | string =>
      cases accepted
      exact .string (Constant.read?_sqlString text)
  | xml =>
      cases accepted
      exact givesBack_xml text
  | boolean =>
      simp only at accepted
      split at accepted
      next found =>
        obtain ⟨b, read, rfl⟩ := Option.map_eq_some_iff.mp found
        cases accepted
        exact givesBack_boolean read
      next => cases accepted
  | enumeration =>
      simp only at accepted
      split at accepted
      next found =>
        obtain ⟨n, read, rfl⟩ := Option.map_eq_some_iff.mp found
        cases accepted
        exact givesBack_integer (.inr rfl) read
      next => cases accepted
  | int32 =>
      simp only at accepted
      split at accepted
      next found =>
        obtain ⟨n, read, rfl⟩ := Option.map_eq_some_iff.mp found
        cases accepted
        exact givesBack_integer (.inl rfl) read
      next => cases accepted
  | guid =>
      simp only at accepted
      split at accepted
      next found =>
        obtain ⟨g, read, rfl⟩ := Option.map_eq_some_iff.mp found
        cases accepted
        exact givesBack_guid read
      next => cases accepted
  | byteArray =>
      simp only at accepted
      split at accepted
      next bytes read =>
        cases accepted
        exact givesBack_byteArray read
      next => cases accepted

theorem givesBack_spaced_base64 :
    (ValueType.byteArray ≠ .dateTime ∧ ValueType.byteArray ≠ .double ∧
        ValueType.byteArray ≠ .single) ∧
      Literal.read .byteArray " AQ\nIK " = .ok (.byteArray [1, 2, 10]) ∧
      GivesBack .byteArray " AQ\nIK ".toList (Literal.byteArray [1, 2, 10]).sqlConstant.toList :=
  have accepted : Literal.read .byteArray " AQ\nIK " = .ok (.byteArray [1, 2, 10]) := by
    decide +kernel
  ⟨by decide, accepted, givesBack_of_read (by decide) accepted⟩

end LearningStore.Value
