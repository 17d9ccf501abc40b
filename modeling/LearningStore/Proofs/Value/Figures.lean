import LearningStore.Proofs.Value.Integer
import LearningStore.Value.Literal

/-!
# Figures

Documentation shows a number, a date, an identifier, bytes or a truth value in digits, letters and
the few marks between them.  Only a default that is a text or an expression can hold other
characters.
-/

namespace LearningStore.Value

open LearningStore.Text

/-- The characters in which values are written. -/
def isFigure (c : Char) : Bool :=
  isDigit c || isLetter c || c == '-' || c == '+' || c == '.' || c == ':' || c == ' ' || c == '*'

/-- They are printed characters of ASCII. -/
theorem toNat_of_isFigure {c : Char} (figure : isFigure c = true) :
    0x20 ≤ c.toNat ∧ c.toNat ≤ 0x7A := by
  have between {a b : Char} (low : a ≤ c) (high : c ≤ b) : a.toNat ≤ c.toNat ∧ c.toNat ≤ b.toNat :=
    ⟨UInt32.le_iff_toNat_le.mp low, UInt32.le_iff_toNat_le.mp high⟩
  simp only [isFigure, isDigit, isLetter, Bool.or_eq_true, Bool.and_eq_true, decide_eq_true_iff,
    beq_iff_eq, or_assoc] at figure
  rcases figure with ⟨low, high⟩ | ⟨low, high⟩ | ⟨low, high⟩ | rfl | rfl | rfl | rfl | rfl | rfl
  case inl | inr.inl | inr.inr.inl =>
    have ⟨least, most⟩ := between low high
    simp at least most
    omega
  all_goals decide

/-- A text of such characters alone. -/
def Figures (s : List Char) : Prop :=
  ∀ c ∈ s, isFigure c = true

instance (s : List Char) : Decidable (Figures s) :=
  inferInstanceAs (Decidable (∀ c ∈ s, isFigure c = true))

section Figures

variable {a b : List Char} {c : Char}

theorem figures_append : Figures (a ++ b) ↔ Figures a ∧ Figures b :=
  List.forall_mem_append

theorem figures_cons : Figures (c :: a) ↔ isFigure c = true ∧ Figures a :=
  List.forall_mem_cons

theorem Figures.nil : Figures [] :=
  List.forall_mem_nil _

theorem Figures.subset (h : Figures b) (inside : a ⊆ b) : Figures a :=
  fun c member => h c (inside member)

theorem figures_replicate (n : Nat) (h : isFigure c = true) : Figures (List.replicate n c) :=
  fun _ member => List.eq_of_mem_replicate member ▸ h

end Figures

/-! ## Digits -/

theorem figures_digitsOf (n : Nat) : Figures (digitsOf n) := by
  intro c member
  rw [isFigure, Integer.isDigit_of_mem_digitsOf member]
  rfl

theorem figures_paddedDigits (width n : Nat) : Figures (paddedDigits width n) :=
  figures_append.mpr ⟨figures_replicate _ (by decide), figures_digitsOf n⟩

theorem figures_integerText (n : Int) : Figures (integerText n).toList := by
  cases n with
  | ofNat m =>
      rw [integerText, String.toList_ofList]
      exact figures_digitsOf m
  | negSucc m =>
      rw [integerText, String.toList_ofList]
      exact figures_cons.mpr ⟨by decide, figures_digitsOf (m + 1)⟩

/-- A number that is no hexadecimal digit is shown as an asterisk. -/
theorem digitChar_of_le {n : Nat} (large : 16 ≤ n) : Nat.digitChar n = '*' := by
  obtain ⟨m, rfl⟩ := Nat.exists_eq_add_of_le' large
  rfl

theorem isFigure_digitChar (n : Nat) : isFigure (Nat.digitChar n) = true ∧
    isFigure (Nat.digitChar n).toUpper = true := by
  rcases Nat.lt_or_ge n 16 with small | large
  · have all : ∀ m < 16, isFigure (Nat.digitChar m) = true ∧
        isFigure (Nat.digitChar m).toUpper = true := by decide
    exact all n small
  · rw [digitChar_of_le large]
    decide

/-! ## Literals -/

/-- Parts with marks between them. -/
theorem figures_intercalate {separator : List Char} (between : Figures separator)
    {parts : List (List Char)} (each : ∀ part ∈ parts, Figures part) :
    Figures (List.intercalate separator parts) := by
  induction parts with
  | nil => exact .nil
  | cons first rest ih =>
      obtain ⟨here, others⟩ := List.forall_mem_cons.mp each
      cases rest with
      | nil => simpa using here
      | cons second rest =>
          rw [List.intercalate_cons_cons, figures_append, figures_append]
          exact ⟨⟨here, between⟩, ih others⟩

theorem figures_hexPair (byte : UInt8) : Figures (Literal.hexPair byte) :=
  figures_cons.mpr ⟨(isFigure_digitChar _).2, figures_cons.mpr ⟨(isFigure_digitChar _).2, .nil⟩⟩

theorem figures_toSecond (t : DateTime) : Figures t.toSecond := by
  have year : Figures (DateTime.yearText t.date.year) := by
    unfold DateTime.yearText
    split
    next => exact figures_cons.mpr ⟨by decide, figures_paddedDigits _ _⟩
    next =>
      split
      next => exact figures_paddedDigits _ _
      next => exact figures_cons.mpr ⟨by decide, figures_paddedDigits _ _⟩
  have marks : isFigure '-' = true ∧ isFigure ' ' = true ∧ isFigure ':' = true := by decide
  simp only [DateTime.toSecond, figures_append, figures_cons, figures_paddedDigits, year, marks,
    and_self]

theorem figures_hyphenated (g : Guid) : Figures g.hyphenated.toList := by
  have digits : Figures (g.digits.map Guid.hexChar) :=
    List.forall_mem_map.mpr fun n _ => (isFigure_digitChar n).1
  have parts (lengths : List Nat) {s : List Char} (h : Figures s) :
      ∀ part ∈ Guid.cut lengths s, Figures part := by
    induction lengths generalizing s with
    | nil => exact List.forall_mem_nil _
    | cons n rest ih =>
        have front : Figures (s.take n) := h.subset (List.take_subset n s)
        have back : Figures (s.drop n) := h.subset (List.drop_subset n s)
        exact List.forall_mem_cons.mpr ⟨front, ih back⟩
  rw [Guid.hyphenated, String.toList_ofList]
  exact figures_intercalate (by decide) (parts Guid.groups digits)

theorem figures_positional (digits : Nat) (power : Int) :
    Figures (Binary.positional digits power) := by
  have number := figures_digitsOf digits
  have zero : isFigure '0' = true ∧ isFigure '.' = true := by decide
  unfold Binary.positional
  split
  next => exact figures_append.mpr ⟨number, figures_replicate _ zero.1⟩
  next places =>
    dsimp only
    split
    next =>
      have front := number.subset (List.take_subset ((digitsOf digits).length - (places + 1)) _)
      have back := number.subset (List.drop_subset ((digitsOf digits).length - (places + 1)) _)
      exact figures_append.mpr ⟨front, figures_cons.mpr ⟨zero.2, back⟩⟩
    next =>
      have fill := figures_replicate (places + 1 - (digitsOf digits).length) zero.1
      exact figures_cons.mpr ⟨zero.1, figures_cons.mpr ⟨zero.2,
        figures_append.mpr ⟨fill, number⟩⟩⟩

theorem figures_text (format : BinaryFormat) (x : Binary) : Figures (x.text format).toList := by
  have magnitude : Figures (if x.significand = 0 then ['0'] else
      Binary.positional (Binary.shortest format x).1 (Binary.shortest format x).2) := by
    split
    next => decide
    next => exact figures_positional _ _
  rw [Binary.text, String.toList_ofList]
  cases x.negative with
  | true => exact figures_cons.mpr ⟨by decide, magnitude⟩
  | false => exact magnitude

/-! ## Defaults -/

/-- The text of a schema file that a default shows as it is, but for escaped marks. -/
def DefaultValue.freeText? : DefaultValue → Option String
  | .function expression => some expression
  | .literal (.string value) => some value
  | .literal (.xml value) => some value
  | _ => none

/-- A default without a text of its own is shown in figures. -/
theorem figures_docText {default : DefaultValue} (noText : default.freeText? = none) :
    Figures (default.docText none).toList := by
  cases default with
  | null => decide
  | function expression => cases noText
  | literal l =>
      cases l with
      | boolean value => cases value <;> decide
      | byteArray bytes =>
          rw [DefaultValue.docText, Literal.docText, String.toList_ofList]
          refine figures_intercalate (by decide) (List.forall_mem_map.mpr fun byte _ => ?_)
          exact figures_hexPair byte
      | dateTime value =>
          rw [DefaultValue.docText, Literal.docText, String.toList_ofList]
          exact figures_toSecond value
      | double value => exact figures_text .double value
      | single value => exact figures_text .single value
      | int32 value => exact figures_integerText value
      | enumeration value => exact figures_integerText value
      | guid value => exact figures_hyphenated value
      | string value => cases noText
      | xml value => cases noText

end LearningStore.Value
