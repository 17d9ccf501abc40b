import LearningStore.Proofs.Text.Trimming
import LearningStore.Proofs.Value.Integer
import LearningStore.Proofs.Value.OneLine

/-!
# Constants

The header of a function gives a parameter a default by a constant: the null value, a number, a
text in apostrophes, bytes as hexadecimal digits, or a date in braces.  An expression, such as the
call of a function, is no constant.  Null and the literals are written as constants, whatever
their values.
-/

namespace LearningStore.Value

open LearningStore.Text

/-! ## What a constant is -/

/-- The rest of a quoted text behind its first apostrophe: an apostrophe inside stands twice, and
one by itself ends the text. -/
def endsQuoted : List Char → Bool
  | [] => false
  | ['\''] => true
  | '\'' :: '\'' :: rest => endsQuoted rest
  | '\'' :: _ => false
  | _ :: rest => endsQuoted rest

/-- A text in apostrophes, which may have the letter N in front. -/
def isQuoted : List Char → Bool
  | '\'' :: rest => endsQuoted rest
  | c :: '\'' :: rest => lowerLetter c == 'n' && endsQuoted rest
  | _ => false

/-- Bytes as hexadecimal digits behind a zero and the letter X. -/
def isHexadecimal : List Char → Bool
  | '0' :: c :: digits => lowerLetter c == 'x' && digits.all fun d => (hexValue? d).isSome
  | _ => false

/-- Digits with one point among them at most. -/
def isDecimal (s : List Char) : Bool :=
  s.any isDigit && (s.filter fun c => !isDigit c).isPrefixOf ['.']

/-- A text without the sign at its start. -/
def unsigned (s : List Char) : List Char :=
  if s.head? = some '+' ∨ s.head? = some '-' then s.tail else s

/-- A decimal, or one with a power of ten behind the letter E. -/
def isUnsigned (s : List Char) : Bool :=
  let letter (c : Char) : Bool := lowerLetter c == 'e'
  isDecimal (s.takeWhile fun c => !letter c) &&
    (unsigned ((s.dropWhile fun c => !letter c).drop 1)).all isDigit

/-- A number, or an amount of money behind the dollar sign. -/
def isNumber (s : List Char) : Bool :=
  isUnsigned (unsigned s) || (unsigned s).head? == some '$' && isDecimal (unsigned s).tail

/-- A date, a time or an identifier in braces, behind a word that tells which. -/
def isEscape : List Char → Bool
  | '\x7b' :: rest =>
      rest.getLast? == some '\x7d' && ["d ", "t ", "ts ", "guid "].any fun kind =>
        kind.toList.isPrefixOf rest && isQuoted (rest.dropLast.drop kind.length)
  | _ => false

/-- Whether a text is a constant, with or without blanks at its ends. -/
def isConstant (text : String) : Bool :=
  let s := trim text.toList
  s.map lowerLetter == "null".toList || isQuoted s || isHexadecimal s || isNumber s || isEscape s

example : isConstant "\x7bts '2006-01-02 15:04:05.000'\x7d" = true := by decide

example : isConstant "NEWID()" = false := by decide

/-! ## Quoted texts -/

theorem endsQuoted_doubleApostrophes (text : List Char) :
    endsQuoted (doubleApostrophes text ++ ['\'']) = true := by
  induction text with
  | nil => rfl
  | cons c rest ih =>
      rw [doubleApostrophes]
      split
      next => exact ih
      next plain => simpa [endsQuoted, plain] using ih

theorem doubleApostrophes_eq_self {text : List Char} (plain : '\'' ∉ text) :
    doubleApostrophes text = text := by
  induction text with
  | nil => rfl
  | cons c rest ih =>
      obtain ⟨other, others⟩ := not_or.mp (mt List.mem_cons.mpr plain)
      rw [doubleApostrophes, if_neg (Ne.symm other), ih others]

theorem isQuoted_around {text : List Char} (plain : '\'' ∉ text) :
    isQuoted ('\'' :: text ++ ['\'']) = true := by
  have ended := endsQuoted_doubleApostrophes text
  rwa [doubleApostrophes_eq_self plain] at ended

theorem isConstant_of_isQuoted {text : String} {inner : List Char}
    (spelled : text.toList = '\'' :: inner ++ ['\''])
    (quoted : isQuoted ('\'' :: inner ++ ['\'']) = true) : isConstant text = true := by
  have whole : trim text.toList = '\'' :: inner ++ ['\''] := by
    rw [spelled, trim_enclosed inner (by decide) (by decide)]
  simp only [isConstant, whole, quoted, Bool.or_true, Bool.true_or]

theorem isConstant_sqlString (text : String) : isConstant (sqlString text) = true :=
  isConstant_of_isQuoted (String.toList_ofList) (endsQuoted_doubleApostrophes text.toList)

/-! ## Numbers -/

theorem not_isBlank_of_isDigit {c : Char} (digit : isDigit c = true) : isBlank c = false := by
  obtain ⟨low, high⟩ := Bool.and_eq_true_iff.mp digit
  have above : 48 ≤ c.toNat := of_decide_eq_true low
  have below : c.toNat ≤ 57 := of_decide_eq_true high
  simp only [isBlank, Bool.or_eq_false_iff, Bool.and_eq_false_iff, decide_eq_false_iff_not,
    beq_eq_false_iff_ne]
  omega

theorem lowerLetter_of_isDigit {c : Char} (digit : isDigit c = true) : lowerLetter c = c := by
  refine if_neg fun capital => ?_
  have above : 65 ≤ c.toNat := capital.1
  have below : c.toNat ≤ 57 := of_decide_eq_true (Bool.and_eq_true_iff.mp digit).2
  omega

/-- A decimal has digits and a point in it and nothing else. -/
theorem isDigit_or_point {s : List Char} (decimal : isDecimal s = true) {c : Char}
    (inside : c ∈ s) : isDigit c = true ∨ c = '.' := by
  obtain ⟨-, others⟩ := Bool.and_eq_true_iff.mp decimal
  cases digit : isDigit c with
  | true => exact .inl rfl
  | false =>
      have kept : c ∈ s.filter fun c => !isDigit c := by simp [inside, digit]
      exact .inr (List.mem_singleton.mp ((List.isPrefixOf_iff_prefix.mp others).subset kept))

theorem isDecimal_of_digits {s : List Char} (nonempty : s ≠ [])
    (digits : ∀ c ∈ s, isDigit c = true) : isDecimal s = true := by
  have none_other : (s.filter fun c => !isDigit c) = [] := by
    simpa [List.filter_eq_nil_iff] using digits
  obtain ⟨c, inside⟩ := List.exists_mem_of_ne_nil s nonempty
  rw [isDecimal, none_other, List.any_eq_true.mpr ⟨c, inside, digits c inside⟩]
  rfl

theorem isDecimal_point {a b : List Char} (nonempty : a ≠ [])
    (front : ∀ c ∈ a, isDigit c = true) (back : ∀ c ∈ b, isDigit c = true) :
    isDecimal (a ++ '.' :: b) = true := by
  have point : ((a ++ '.' :: b).filter fun c => !isDigit c) = ['.'] := by
    have before : (a.filter fun c => !isDigit c) = [] := by
      simpa [List.filter_eq_nil_iff] using front
    have behind : (b.filter fun c => !isDigit c) = [] := by
      simpa [List.filter_eq_nil_iff] using back
    rw [List.filter_append, before, List.filter_cons_of_pos (by decide), behind]
    rfl
  obtain ⟨c, inside⟩ := List.exists_mem_of_ne_nil a nonempty
  have some_digit : (a ++ '.' :: b).any isDigit = true :=
    List.any_eq_true.mpr ⟨c, List.mem_append_left _ inside, front c inside⟩
  rw [isDecimal, point, some_digit]
  rfl

theorem isUnsigned_of_isDecimal {s : List Char} (decimal : isDecimal s = true) :
    isUnsigned s = true := by
  have noPower : ∀ c ∈ s, (!lowerLetter c == 'e') = true := by
    intro c inside
    rcases isDigit_or_point decimal inside with digit | rfl
    · rw [lowerLetter_of_isDigit digit]
      rw [Bool.not_eq_true', beq_eq_false_iff_ne]
      rintro rfl
      cases digit
    · decide
  rw [isUnsigned]
  simp only [List.takeWhile_eq_self_iff.mpr noPower, List.dropWhile_eq_nil_iff.mpr noPower, decimal]
  rfl

theorem unsigned_of_isDecimal {s : List Char} (decimal : isDecimal s = true) :
    unsigned s = s := by
  rw [unsigned, if_neg]
  rintro (sign | sign)
  all_goals
    have inside := List.mem_of_mem_head? sign
    exact absurd (isDigit_or_point decimal inside) (by decide)

/-- A decimal with or without a sign in front. -/
theorem isConstant_of_isDecimal {text : String} {s : List Char} (decimal : isDecimal s = true)
    (spelled : text.toList = s ∨ text.toList = '-' :: s) : isConstant text = true := by
  have solid : ∀ c ∈ s, isBlank c = false := by
    intro c inside
    rcases isDigit_or_point decimal inside with digit | rfl
    · exact not_isBlank_of_isDigit digit
    · decide
  have number : trim text.toList = text.toList ∧ unsigned text.toList = s := by
    rcases spelled with same | same
    · rw [same]
      exact ⟨trim_eq_self_of_forall solid, unsigned_of_isDecimal decimal⟩
    · rw [same]
      exact ⟨trim_eq_self_of_forall (List.forall_mem_cons.mpr ⟨by decide, solid⟩), rfl⟩
  have unsigned := isUnsigned_of_isDecimal decimal
  simp only [isConstant, number.1, isNumber, number.2, unsigned, Bool.true_or, Bool.or_true]

theorem digits_digitsOf (n : Nat) : ∀ c ∈ digitsOf n, isDigit c = true :=
  fun _ => Integer.isDigit_of_mem_digitsOf

theorem isConstant_integerText (n : Int) : isConstant (integerText n) = true := by
  have decimal (m : Nat) : isDecimal (digitsOf m) = true :=
    isDecimal_of_digits Nat.toDigits_ne_nil (digits_digitsOf m)
  cases n with
  | ofNat m => exact isConstant_of_isDecimal (decimal m) (.inl String.toList_ofList)
  | negSucc m => exact isConstant_of_isDecimal (decimal (m + 1)) (.inr String.toList_ofList)

theorem isDecimal_positional (digits : Nat) (power : Int) :
    isDecimal (Binary.positional digits power) = true := by
  have number := digits_digitsOf digits
  have zeros (n : Nat) : ∀ c ∈ List.replicate n '0', isDigit c = true := fun c inside => by
    rw [List.eq_of_mem_replicate inside]
    rfl
  unfold Binary.positional
  split
  next =>
    refine isDecimal_of_digits (List.append_ne_nil_of_left_ne_nil Nat.toDigits_ne_nil _) ?_
    exact List.forall_mem_append.mpr ⟨number, zeros _⟩
  next places =>
    dsimp only
    split
    next short =>
      refine isDecimal_point ?_ (fun c inside => number c (List.mem_of_mem_take inside))
        fun c inside => number c (List.mem_of_mem_drop inside)
      rw [ne_eq, List.take_eq_nil_iff, not_or]
      exact ⟨by omega, Nat.toDigits_ne_nil⟩
    next =>
      exact isDecimal_point (a := ['0']) (List.cons_ne_nil _ _) (List.forall_mem_singleton.mpr rfl)
        (List.forall_mem_append.mpr ⟨zeros _, number⟩)

theorem isConstant_text (format : BinaryFormat) (x : Binary) :
    isConstant (x.text format) = true := by
  have decimal : isDecimal (if x.significand = 0 then ['0'] else
      Binary.positional (Binary.shortest format x).1 (Binary.shortest format x).2) = true := by
    split
    next => decide
    next => exact isDecimal_positional _ _
  cases negative : x.negative with
  | true =>
      refine isConstant_of_isDecimal decimal (.inr ?_)
      rw [Binary.text, String.toList_ofList, negative]
      rfl
  | false =>
      refine isConstant_of_isDecimal decimal (.inl ?_)
      rw [Binary.text, String.toList_ofList, negative]
      rfl

/-! ## Literals -/

theorem isSome_hexValue?_hexPair (byte : UInt8) :
    ∀ c ∈ Literal.hexPair byte, (hexValue? c).isSome = true ∧ isBlank c = false := by
  have digit : ∀ n < 16, (hexValue? (Nat.digitChar n).toUpper).isSome = true ∧
      isBlank (Nat.digitChar n).toUpper = false := by decide
  have small : byte.toNat < 256 := byte.toNat_lt
  rw [Literal.hexPair, List.forall_mem_cons, List.forall_mem_singleton]
  exact ⟨digit _ (by omega), digit _ (by omega)⟩

theorem isConstant_byteArray (bytes : List UInt8) :
    isConstant (Literal.byteArray bytes).sqlConstant = true := by
  have digits : ∀ c ∈ bytes.flatMap Literal.hexPair,
      (hexValue? c).isSome = true ∧ isBlank c = false := by
    intro c inside
    obtain ⟨byte, -, member⟩ := List.mem_flatMap.mp inside
    exact isSome_hexValue?_hexPair byte c member
  have whole : trim (Literal.byteArray bytes).sqlConstant.toList =
      '0' :: 'x' :: bytes.flatMap Literal.hexPair := by
    rw [Literal.sqlConstant, String.toList_ofList]
    refine trim_eq_self_of_forall (List.forall_mem_cons.mpr ⟨by decide, ?_⟩)
    exact List.forall_mem_cons.mpr ⟨by decide, fun c inside => (digits c inside).2⟩
  have hexadecimal : isHexadecimal ('0' :: 'x' :: bytes.flatMap Literal.hexPair) = true :=
    List.all_eq_true.mpr fun c inside => (digits c inside).1
  simp only [isConstant, whole, hexadecimal, Bool.or_true, Bool.true_or]

theorem apostrophe_notMem_of_digits {s : List Char} (digits : ∀ c ∈ s, isDigit c = true) :
    '\'' ∉ s :=
  fun inside => absurd (digits _ inside) (by decide)

theorem apostrophe_notMem_paddedDigits (width n : Nat) : '\'' ∉ paddedDigits width n := by
  refine apostrophe_notMem_of_digits (List.forall_mem_append.mpr ⟨?_, digits_digitsOf n⟩)
  intro c inside
  rw [List.eq_of_mem_replicate inside]
  rfl

theorem apostrophe_notMem_toMillisecond (t : DateTime) : '\'' ∉ t.toMillisecond := by
  have year : '\'' ∉ DateTime.yearText t.date.year := by
    unfold DateTime.yearText
    split
    next => simp [apostrophe_notMem_paddedDigits]
    next => split <;> simp [apostrophe_notMem_paddedDigits]
  simp [DateTime.toMillisecond, DateTime.toSecond, year, apostrophe_notMem_paddedDigits]

theorem isConstant_dateTime (t : DateTime) :
    isConstant (Literal.dateTime t).sqlConstant = true := by
  have spelled : (Literal.dateTime t).sqlConstant.toList =
      '\x7b' :: ("ts '".toList ++ t.toMillisecond ++ ['\'']) ++ ['\x7d'] := by
    simp [Literal.sqlConstant]
  have whole : trim (Literal.dateTime t).sqlConstant.toList =
      '\x7b' :: ("ts '".toList ++ t.toMillisecond ++ ['\'']) ++ ['\x7d'] := by
    rw [spelled, trim_enclosed _ (by decide) (by decide)]
  have quoted := isQuoted_around (apostrophe_notMem_toMillisecond t)
  have escape : isEscape
      ('\x7b' :: ("ts '".toList ++ t.toMillisecond ++ ['\'']) ++ ['\x7d']) = true := by
    rw [List.cons_append, isEscape, List.getLast?_concat, List.dropLast_concat]
    refine Bool.and_eq_true_iff.mpr ⟨by decide, List.any_eq_true.mpr ⟨"ts ", by decide, ?_⟩⟩
    exact Bool.and_eq_true_iff.mpr ⟨rfl, quoted⟩
  simp only [isConstant, whole, escape, Bool.or_true]

theorem mem_or_mem_of_mem_intercalate {α : Type} {separator : List α} {parts : List (List α)}
    {c : α} (inside : c ∈ List.intercalate separator parts) :
    c ∈ separator ∨ ∃ part ∈ parts, c ∈ part := by
  induction parts with
  | nil => cases inside
  | cons first rest ih =>
      cases rest with
      | nil => exact .inr ⟨first, List.mem_cons_self, by simpa using inside⟩
      | cons second rest =>
          rw [List.intercalate_cons_cons, List.mem_append, List.mem_append] at inside
          rcases inside with (here | between) | later
          · exact .inr ⟨first, List.mem_cons_self, here⟩
          · exact .inl between
          · exact (ih later).imp_right fun ⟨part, member, found⟩ =>
              ⟨part, List.mem_cons_of_mem first member, found⟩

theorem mem_of_mem_cut {lengths : List Nat} {s part : List Char} {c : Char}
    (member : part ∈ Guid.cut lengths s) (inside : c ∈ part) : c ∈ s := by
  induction lengths generalizing s with
  | nil => cases member
  | cons n rest ih =>
      rcases List.mem_cons.mp member with rfl | later
      · exact List.mem_of_mem_take inside
      · exact List.mem_of_mem_drop (ih later)

theorem apostrophe_notMem_hyphenated (g : Guid) : '\'' ∉ g.hyphenated.toList := by
  have digit (n : Nat) : '\'' ≠ Guid.hexChar n := by
    rcases Nat.lt_or_ge n 16 with small | large
    · have all : ∀ m < 16, '\'' ≠ Nat.digitChar m := by decide
      exact all n small
    · rw [Guid.hexChar, digitChar_of_le large]
      decide
  rw [Guid.hyphenated, String.toList_ofList]
  intro inside
  rcases mem_or_mem_of_mem_intercalate inside with between | ⟨part, member, found⟩
  · exact absurd between (by decide)
  · obtain ⟨n, -, same⟩ := List.mem_map.mp (mem_of_mem_cut member found)
    exact digit n same.symm

/-- Every literal is written as a constant. -/
theorem isConstant_literal (l : Literal) : isConstant l.sqlConstant = true := by
  cases l with
  | boolean value => cases value <;> decide
  | byteArray bytes => exact isConstant_byteArray bytes
  | dateTime t => exact isConstant_dateTime t
  | double value => exact isConstant_text .double value
  | single value => exact isConstant_text .single value
  | int32 value => exact isConstant_integerText value
  | enumeration value => exact isConstant_integerText value
  | guid value =>
      refine isConstant_of_isQuoted ?_ (isQuoted_around (apostrophe_notMem_hyphenated value))
      simp [Literal.sqlConstant]
  | string value => exact isConstant_sqlString value
  | xml value => exact isConstant_sqlString _

/-- A default is written as a constant unless it is an expression that is none. -/
theorem isConstant_sqlConstant_iff {default : DefaultValue} :
    isConstant default.sqlConstant = true ↔
      ∀ expression, default = .function expression → isConstant expression = true := by
  cases default with
  | null => exact ⟨fun _ _ => nofun, fun _ => by decide⟩
  | function expression =>
      constructor
      · rintro constant _ ⟨rfl⟩
        exact constant
      · exact fun each => each expression rfl
  | literal l => exact ⟨fun _ _ => nofun, fun _ => isConstant_literal l⟩

end LearningStore.Value
