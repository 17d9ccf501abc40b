import LearningStore.Proofs.Text.Trimming
import LearningStore.Proofs.Value.Calendar
import LearningStore.Value.DateTimeText
import Mathlib.Data.List.Basic

/-!
# The texts that are dates and times

A date and time is written as fields with marks between them.  The fields of a text are fixed by
the text, so the notations that are tried in turn never disagree, and the texts that are read are
those that spell fields of one of the notations.
-/

namespace LearningStore.Value.DateTime

open LearningStore.Text

/-! ## Numbers -/

def Digits (s : List Char) : Prop :=
  ∀ c ∈ s, isDigit c = true

/-- Exactly so many digits. -/
def Width (count : Nat) (s : List Char) : Prop :=
  s.length = count ∧ Digits s

instance (s : List Char) : Decidable (Digits s) :=
  List.decidableBAll _ _

instance (count : Nat) (s : List Char) : Decidable (Width count s) :=
  inferInstanceAs (Decidable (s.length = count ∧ Digits s))

/-- A text that no digit starts. -/
def Breaks (s : List Char) : Prop :=
  ∀ c ∈ s.head?, isDigit c = false

/-- The number of a field, which may have blanks or a sign in front of its digits. -/
def number (field : List Char) : Nat :=
  numberOfDigits (field.filter isDigit)

/-- A field ends with its digits. -/
def Numeral (field : List Char) : Prop :=
  ∃ front digits, field = front ++ digits ∧ (∀ c ∈ front, isDigit c = false) ∧ digits ≠ [] ∧
    Digits digits

theorem isBlank_of_isDigit {c : Char} (digit : isDigit c = true) : isBlank c = false := by
  obtain ⟨low, high⟩ := Bool.and_eq_true_iff.mp digit
  have bounds : 48 ≤ c.toNat ∧ c.toNat ≤ 57 := ⟨of_decide_eq_true low, of_decide_eq_true high⟩
  simp only [isBlank, Bool.or_eq_false_iff, Bool.and_eq_false_iff, beq_eq_false_iff_ne,
    decide_eq_false_iff_not]
  omega

theorem not_isDigit_of_isBlank {c : Char} (blank : isBlank c = true) : isDigit c = false := by
  by_contra digit
  rw [isBlank_of_isDigit (Bool.eq_true_of_not_eq_false digit)] at blank
  cases blank

theorem number_append {front digits : List Char} (before : ∀ c ∈ front, isDigit c = false)
    (each : Digits digits) : number (front ++ digits) = numberOfDigits digits := by
  rw [number, List.filter_append, List.filter_eq_self.mpr each,
    List.filter_eq_nil_iff.mpr fun c inside => ne_true_of_eq_false (before c inside),
    List.nil_append]

theorem number_of_digits {digits : List Char} (each : Digits digits) :
    number digits = numberOfDigits digits :=
  congrArg numberOfDigits (List.filter_eq_self.mpr each)

theorem Width.numeral {count : Nat} {s : List Char} (width : Width (count + 1) s) : Numeral s :=
  ⟨[], s, rfl, nofun, List.ne_nil_of_length_eq_add_one width.1, width.2⟩

theorem takeWhile_digits {digits rest : List Char} (each : Digits digits) (ends : Breaks rest) :
    (digits ++ rest).takeWhile isDigit = digits := by
  rw [List.takeWhile_append_of_pos each]
  cases rest with
  | nil => exact List.append_nil digits
  | cons c rest => rw [List.takeWhile_cons_of_neg (by simp [ends c rfl]), List.append_nil]

/-- Where a field ends is fixed by the text. -/
theorem Numeral.append_inj {f g rest tail : List Char} (first : Numeral f) (second : Numeral g)
    (ends : Breaks rest) (stops : Breaks tail) (same : f ++ rest = g ++ tail) :
    f = g ∧ rest = tail := by
  -- The field is what comes before the first digit together with the run of digits there.
  have fieldOf {f rest : List Char} (field : Numeral f) (ends : Breaks rest) :
      (f ++ rest).takeWhile (fun c => !isDigit c) ++
        ((f ++ rest).dropWhile fun c => !isDigit c).takeWhile isDigit = f := by
    obtain ⟨front, digits, rfl, before, nonempty, each⟩ := field
    obtain ⟨d, ds, rfl⟩ := List.exists_cons_of_ne_nil nonempty
    have skips : ∀ c ∈ front, (!isDigit c) = true := fun c inside => by simp [before c inside]
    have starts : (!isDigit d) ≠ true := by simp [each d List.mem_cons_self]
    have run := takeWhile_digits each ends
    have walk : (d :: ds ++ rest).takeWhile (fun c => !isDigit c) = [] ∧
        (d :: ds ++ rest).dropWhile (fun c => !isDigit c) = d :: ds ++ rest :=
      ⟨List.takeWhile_cons_of_neg starts, List.dropWhile_cons_of_neg starts⟩
    rw [List.append_assoc, List.takeWhile_append_of_pos skips, List.dropWhile_append_of_pos skips,
      walk.1, walk.2, run, List.append_nil]
  have fields : f = g := by rw [← fieldOf first ends, same, fieldOf second stops]
  subst fields
  exact ⟨rfl, List.append_cancel_left same⟩

/-! ## Fields -/

/-- One or two digits, after blanks. -/
def Field (field : List Char) : Prop :=
  ∃ blanks digits, field = blanks ++ digits ∧ Blanks blanks ∧ digits ≠ [] ∧ digits.length ≤ 2 ∧
    Digits digits

/-- Up to four digits, or any number of them behind a sign, after blanks. -/
def Year (field : List Char) : Prop :=
  ∃ blanks sign digits, field = blanks ++ (sign ++ digits) ∧ Blanks blanks ∧ digits ≠ [] ∧
    Digits digits ∧ (sign = [] ∧ digits.length ≤ 4 ∨ sign = ['-'] ∨ sign = ['+'])

/-- The number of a year, which a minus sign makes negative. -/
def yearNumber (field : List Char) : Int :=
  if '-' ∈ field then -number field else number field

/-- Nothing, or a point and digits. -/
def Fraction (s : List Char) : Prop :=
  s = [] ∨ ∃ digits, s = '.' :: digits ∧ digits ≠ [] ∧ Digits digits

/-- The nanoseconds of a fraction, whose first nine digits count. -/
def nanoseconds (fraction : List Char) : Nat :=
  let kept := (fraction.drop 1).take 9
  numberOfDigits kept * 10 ^ (9 - kept.length)

/-- A sign, the hours and the minutes of an offset of at most so many minutes. -/
def IsOffset (signs : List Char) (most : Nat) (zone : List Char) : Prop :=
  ∃ sign hour minute, zone = sign :: (hour ++ ':' :: minute) ∧ sign ∈ signs ∧ Width 2 hour ∧
    Width 2 minute ∧ numberOfDigits minute ≤ 59 ∧
    numberOfDigits hour * 60 + numberOfDigits minute ≤ most

/-- The minutes by which a zone is ahead of UTC. -/
def zoneMinutes : List Char → Int
  | sign :: a :: b :: _ :: minute =>
      let total : Int := numberOfDigits [a, b] * 60 + numberOfDigits minute
      if sign = '+' then total else -total
  | _ => 0

theorem Field.numeral {field : List Char} (is : Field field) : Numeral field := by
  obtain ⟨blanks, digits, rfl, before, nonempty, -, each⟩ := is
  exact ⟨blanks, digits, rfl, fun c inside => not_isDigit_of_isBlank (before c inside), nonempty,
    each⟩

theorem not_isDigit_of_mem_sign {sign : List Char}
    (kind : sign = [] ∨ sign = ['-'] ∨ sign = ['+']) : ∀ c ∈ sign, isDigit c = false := by
  rcases kind with rfl | rfl | rfl
  · exact nofun
  · exact List.forall_mem_singleton.mpr rfl
  · exact List.forall_mem_singleton.mpr rfl

theorem Year.numeral {field : List Char} (is : Year field) : Numeral field := by
  obtain ⟨blanks, sign, digits, rfl, before, nonempty, each, kind⟩ := is
  refine ⟨blanks ++ sign, digits, (List.append_assoc ..).symm, ?_, nonempty, each⟩
  exact List.forall_mem_append.mpr ⟨fun c inside => not_isDigit_of_isBlank (before c inside),
    not_isDigit_of_mem_sign (kind.imp_left And.left)⟩

theorem Width.field {s : List Char} (width : Width 2 s) : Field s :=
  ⟨[], s, rfl, nofun, List.ne_nil_of_length_eq_add_one width.1, width.1.le, width.2⟩

theorem Width.year {s : List Char} (width : Width 4 s) : Year s :=
  ⟨[], [], s, rfl, nofun, List.ne_nil_of_length_eq_add_one width.1, width.2, .inl ⟨rfl, width.1.le⟩⟩

theorem yearNumber_of_digits {s : List Char} (each : Digits s) :
    yearNumber s = numberOfDigits s := by
  have unsigned : '-' ∉ s := fun inside => absurd (each '-' inside) (by decide)
  rw [yearNumber, if_neg unsigned, number_of_digits each]

/-! ## Scanning -/

section Scanning

variable {s rest : List Char}

theorem skip?_eq_some_iff {c : Char} : skip? c s = some rest ↔ s = c :: rest := by
  cases s with
  | nil => simp [skip?]
  | cons d tail =>
      rw [skip?, List.cons.injEq]
      split
      next same => simp [same]
      next other => simp [other]

theorem exactly?_eq_some_iff {count n : Nat} : exactly? count s = some (n, rest) ↔
    ∃ digits, s = digits ++ rest ∧ Width count digits ∧ numberOfDigits digits = n := by
  unfold exactly?
  constructor
  · intro read
    dsimp only at read
    split at read
    next found =>
      cases read
      exact ⟨s.take count, (List.take_append_drop count s).symm,
        ⟨found.1, List.all_eq_true.mp found.2⟩, rfl⟩
    next => cases read
  · rintro ⟨digits, rfl, ⟨rfl, each⟩, rfl⟩
    rw [List.take_left, List.drop_left]
    exact if_pos ⟨rfl, List.all_eq_true.mpr each⟩

theorem skip?_self (c : Char) : skip? c (c :: rest) = some rest :=
  skip?_eq_some_iff.mpr rfl

theorem exactly?_append {count : Nat} {digits : List Char} (width : Width count digits)
    (rest : List Char) :
    exactly? count (digits ++ rest) = some (numberOfDigits digits, rest) :=
  exactly?_eq_some_iff.mpr ⟨digits, rfl, width, rfl⟩

theorem atMost?_eq_some {limit n : Nat} (read : atMost? limit s = some (n, rest)) :
    ∃ digits, s = digits ++ rest ∧ digits ≠ [] ∧ digits.length ≤ limit ∧ Digits digits ∧
      numberOfDigits digits = n := by
  unfold atMost? at read
  dsimp only at read
  split at read
  next => cases read
  next nonempty =>
    cases read
    have front : (s.take limit).takeWhile isDigit <+: s :=
      (List.takeWhile_prefix _).trans (List.take_prefix _ _)
    refine ⟨_, (List.prefix_iff_eq_append.mp front).symm, ?_, ?_,
      fun c inside => List.mem_takeWhile_imp inside, rfl⟩
    · exact fun empty => nonempty (List.isEmpty_iff.mpr empty)
    · exact (List.takeWhile_prefix _).length_le.trans (List.length_take_le _ _)

theorem atMost?_append {limit : Nat} {digits : List Char} (nonempty : digits ≠ [])
    (short : digits.length ≤ limit) (each : Digits digits) (ends : Breaks rest) :
    atMost? limit (digits ++ rest) = some (numberOfDigits digits, rest) := by
  have stops : Breaks (rest.take (limit - digits.length)) := by
    intro c first
    rw [List.head?_take] at first
    split at first
    next => cases first
    next => exact ends c first
  have run : ((digits ++ rest).take limit).takeWhile isDigit = digits := by
    rw [List.take_append, List.take_of_length_le short, takeWhile_digits each stops]
  have present : digits.isEmpty = false := List.isEmpty_eq_false_iff.mpr nonempty
  simp only [atMost?, run, present, List.drop_left]
  rfl

theorem trimStart_eq_append (s : List Char) : ∃ blanks, s = blanks ++ trimStart s ∧ Blanks blanks :=
  ⟨s.takeWhile isBlank, List.takeWhile_append_dropWhile.symm,
    fun _ inside => List.mem_takeWhile_imp inside⟩

theorem trimStart_of_solid {blanks s : List Char} {c : Char} (before : Blanks blanks)
    (first : isBlank c = false) : trimStart (blanks ++ c :: s) = c :: s := by
  rw [trimStart_append before, trimStart, List.dropWhile_cons_of_neg (by simp [first])]

theorem field?_eq_some {n : Nat} (read : field? s = some (n, rest)) :
    ∃ field, s = field ++ rest ∧ Field field ∧ number field = n := by
  obtain ⟨blanks, whole, before⟩ := trimStart_eq_append s
  obtain ⟨digits, spelled, nonempty, short, each, rfl⟩ := atMost?_eq_some read
  refine ⟨blanks ++ digits, ?_, ⟨blanks, digits, rfl, before, nonempty, short, each⟩,
    number_append (fun c inside => not_isDigit_of_isBlank (before c inside)) each⟩
  rw [whole, spelled, List.append_assoc]

theorem field?_append {field : List Char} (is : Field field) (ends : Breaks rest) :
    field? (field ++ rest) = some (number field, rest) := by
  obtain ⟨blanks, digits, rfl, before, nonempty, short, each⟩ := is
  obtain ⟨d, ds, rfl⟩ := List.exists_cons_of_ne_nil nonempty
  have solid : isBlank d = false := isBlank_of_isDigit (each d List.mem_cons_self)
  rw [number_append (fun c inside => not_isDigit_of_isBlank (before c inside)) each, field?,
    List.append_assoc, List.cons_append, trimStart_of_solid before solid, ← List.cons_append,
    atMost?_append nonempty short each ends]

/-- A year is scanned from its sign on. -/
theorem yearNumber_eq {blanks sign digits : List Char} (before : Blanks blanks)
    (each : Digits digits) (kind : sign = [] ∨ sign = ['-'] ∨ sign = ['+']) :
    yearNumber (blanks ++ (sign ++ digits)) =
      if sign = ['-'] then -(numberOfDigits digits : Int) else numberOfDigits digits := by
  have unsigned {s : List Char} (all : ∀ c ∈ s, isBlank c = true ∨ isDigit c = true) : '-' ∉ s :=
    fun inside => absurd (all '-' inside) (by decide)
  have front := unsigned fun c inside => .inl (before c inside)
  have back := unsigned fun c inside => .inr (each c inside)
  have signs : ∀ c ∈ blanks ++ sign, isDigit c = false :=
    List.forall_mem_append.mpr ⟨fun c inside => not_isDigit_of_isBlank (before c inside),
      not_isDigit_of_mem_sign kind⟩
  have minus : '-' ∈ blanks ++ (sign ++ digits) ↔ sign = ['-'] := by
    rcases kind with rfl | rfl | rfl <;> simp [front, back]
  simp only [yearNumber, minus]
  rw [← List.append_assoc, number_append signs each]

theorem year?_eq_some {n : Int} (read : year? s = some (n, rest)) :
    ∃ field, s = field ++ rest ∧ Year field ∧ yearNumber field = n := by
  obtain ⟨blanks, whole, before⟩ := trimStart_eq_append s
  unfold year? at read
  split at read
  next tail spelled =>
    obtain ⟨⟨m, after⟩, found, ⟨⟩⟩ := Option.map_eq_some_iff.mp read
    obtain ⟨digits, rfl, nonempty, -, each, rfl⟩ := atMost?_eq_some found
    exact ⟨blanks ++ (['-'] ++ digits), by rw [whole, spelled]; simp,
      ⟨blanks, ['-'], digits, rfl, before, nonempty, each, .inr (.inl rfl)⟩,
      yearNumber_eq before each (.inr (.inl rfl))⟩
  next tail spelled =>
    obtain ⟨⟨m, after⟩, found, ⟨⟩⟩ := Option.map_eq_some_iff.mp read
    obtain ⟨digits, rfl, nonempty, -, each, rfl⟩ := atMost?_eq_some found
    exact ⟨blanks ++ (['+'] ++ digits), by rw [whole, spelled]; simp,
      ⟨blanks, ['+'], digits, rfl, before, nonempty, each, .inr (.inr rfl)⟩,
      yearNumber_eq before each (.inr (.inr rfl))⟩
  next =>
    obtain ⟨⟨m, after⟩, found, ⟨⟩⟩ := Option.map_eq_some_iff.mp read
    obtain ⟨digits, spelled, nonempty, short, each, rfl⟩ := atMost?_eq_some found
    exact ⟨blanks ++ ([] ++ digits), by rw [whole, spelled]; simp,
      ⟨blanks, [], digits, rfl, before, nonempty, each, .inl ⟨rfl, short⟩⟩,
      yearNumber_eq before each (.inl rfl)⟩

theorem year?_append {field : List Char} (is : Year field) (ends : Breaks rest) :
    year? (field ++ rest) = some (yearNumber field, rest) := by
  obtain ⟨blanks, sign, digits, rfl, before, nonempty, each, kind⟩ := is
  have enough : digits.length ≤ (digits ++ rest).length := by simp
  have value := yearNumber_eq before each (kind.imp_left And.left)
  obtain ⟨d, ds, rfl⟩ := List.exists_cons_of_ne_nil nonempty
  have digit := each d List.mem_cons_self
  rw [value]
  rcases kind with ⟨rfl, short⟩ | rfl | rfl
  · have start : trimStart (blanks ++ ([] ++ d :: ds) ++ rest) = d :: ds ++ rest := by
      rw [List.append_assoc]
      exact trimStart_of_solid before (isBlank_of_isDigit digit)
    unfold year?
    split
    next tail spelled =>
      rw [start] at spelled
      cases spelled
      exact absurd digit (by decide)
    next tail spelled =>
      rw [start] at spelled
      cases spelled
      exact absurd digit (by decide)
    next =>
      rw [start, atMost?_append nonempty short each ends]
      rfl
  · have start : trimStart (blanks ++ (['-'] ++ d :: ds) ++ rest) = '-' :: (d :: ds ++ rest) := by
      rw [List.append_assoc]
      exact trimStart_of_solid before (by decide)
    simp only [year?, start, atMost?_append nonempty enough each ends]
    rfl
  · have start : trimStart (blanks ++ (['+'] ++ d :: ds) ++ rest) = '+' :: (d :: ds ++ rest) := by
      rw [List.append_assoc]
      exact trimStart_of_solid before (by decide)
    simp only [year?, start, atMost?_append nonempty enough each ends]
    rfl

theorem fraction?_eq_some {n : Nat} (read : fraction? s = some (n, rest)) :
    ∃ fraction, s = fraction ++ rest ∧ Fraction fraction ∧ nanoseconds fraction = n := by
  unfold fraction? at read
  split at read
  next tail =>
    dsimp only at read
    split at read
    next => cases read
    next nonempty =>
      cases read
      refine ⟨'.' :: tail.takeWhile isDigit, ?_, .inr ⟨_, rfl, ?_, fun c inside =>
        List.mem_takeWhile_imp inside⟩, rfl⟩
      · rw [List.cons_append, List.takeWhile_append_dropWhile]
      · exact fun empty => nonempty (List.isEmpty_iff.mpr empty)
  next =>
    cases read
    exact ⟨[], rfl, .inl rfl, rfl⟩

theorem dropWhile_digits {digits rest : List Char} (each : Digits digits) (ends : Breaks rest) :
    (digits ++ rest).dropWhile isDigit = rest := by
  rw [List.dropWhile_append_of_pos each]
  cases rest with
  | nil => rfl
  | cons c rest => exact List.dropWhile_cons_of_neg (by simp [ends c rfl])

theorem fraction?_append {fraction : List Char} (is : Fraction fraction) (ends : Breaks rest)
    (unpointed : rest.head? ≠ some '.') :
    fraction? (fraction ++ rest) = some (nanoseconds fraction, rest) := by
  rcases is with rfl | ⟨digits, rfl, nonempty, each⟩
  · unfold fraction?
    split
    next spelled => exact absurd (congrArg List.head? spelled) unpointed
    next => rfl
  · have present : digits.isEmpty = false := List.isEmpty_eq_false_iff.mpr nonempty
    simp only [List.cons_append, fraction?, takeWhile_digits each ends,
      dropWhile_digits each ends, present]
    rfl

/-- A zone that a full date and time may have. -/
def FullZone (zone : List Char) : Prop :=
  zone = ['Z'] ∨ zone = ['z'] ∨ IsOffset ['+', '-', '\u2212'] 1439 zone

theorem offset?_eq_some {n : Int} (read : offset? s = some (n, rest)) :
    ∃ zone, s = zone ++ rest ∧ FullZone zone ∧ zoneMinutes zone = n := by
  unfold offset? at read
  split at read
  next => cases read
  next c tail =>
    split at read
    next utc =>
      cases read
      rcases utc with rfl | rfl
      · exact ⟨['Z'], rfl, .inl rfl, rfl⟩
      · exact ⟨['z'], rfl, .inr (.inl rfl), rfl⟩
    next =>
      split at read
      next sign =>
        simp only [Option.bind_eq_bind, Option.bind_eq_some_iff, Prod.exists,
          exactly?_eq_some_iff, skip?_eq_some_iff, Option.ite_none_right_eq_some,
          Option.some.injEq, Prod.mk.injEq] at read
        obtain ⟨_, _, ⟨hour, rfl, wide, rfl⟩, _, rfl, _, _, ⟨minute, rfl, wide', rfl⟩, bounds,
          rfl, rfl⟩ := read
        refine ⟨c :: (hour ++ ':' :: minute), by simp, .inr (.inr ⟨c, hour, minute, rfl,
          by simpa using sign, wide, wide', bounds.2, by omega⟩), ?_⟩
        obtain ⟨a, b, rfl⟩ := List.length_eq_two.mp wide.1
        rfl
      next => cases read

theorem offset?_append {zone : List Char} (is : FullZone zone) :
    offset? (zone ++ rest) = some (zoneMinutes zone, rest) := by
  rcases is with rfl | rfl | ⟨sign, hour, minute, rfl, signs, wide, wide', least, most⟩
  · rfl
  · rfl
  · have noLetter : ¬ (sign = 'Z' ∨ sign = 'z') := by
      rintro (rfl | rfl) <;> exact absurd signs (by decide)
    have bounds : numberOfDigits hour ≤ 23 ∧ numberOfDigits minute ≤ 59 := by omega
    have first := exactly?_append wide (':' :: (minute ++ rest))
    have second := exactly?_append wide' rest
    have signs : sign = '+' ∨ sign = '-' ∨ sign = '\u2212' := by simpa using signs
    rw [List.cons_append, List.append_assoc, List.cons_append, offset?, if_neg noLetter,
      if_pos signs]
    simp only [first, second, skip?_self, Option.bind_eq_bind, Option.bind_some, if_pos bounds]
    obtain ⟨a, b, rfl⟩ := List.length_eq_two.mp wide.1
    rfl

end Scanning

end LearningStore.Value.DateTime
