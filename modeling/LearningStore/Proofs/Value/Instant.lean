import LearningStore.Proofs.Value.Integer
import LearningStore.Proofs.Value.Written
import LearningStore.Value.Literal
import Mathlib.Data.List.Induction

/-!
# Texts that denote instants

A text that spells a date and time with all its digits denotes an instant.  It is read as the time
in UTC at that instant, and the constant of the time shows it to the millisecond.
-/

namespace LearningStore.Value

open LearningStore.Text
open DateTime

/-! ## Numbers of digits -/

theorem numberOfDigits_concat (digits : List Char) (c : Char) :
    numberOfDigits (digits ++ [c]) = 10 * numberOfDigits digits + digitValue c := by
  rw [numberOfDigits, List.foldl_append]
  rfl

theorem digitValue_lt {c : Char} (digit : isDigit c = true) : digitValue c < 10 := by
  obtain ⟨-, high⟩ := Bool.and_eq_true_iff.mp digit
  have bound : c.toNat ≤ 57 := of_decide_eq_true high
  unfold digitValue
  omega

theorem numberOfDigits_lt {digits : List Char} (each : Digits digits) :
    numberOfDigits digits < 10 ^ digits.length := by
  induction digits using List.reverseRecOn with
  | nil => decide
  | append_singleton front c ih =>
      obtain ⟨before, last⟩ := List.forall_mem_append.mp each
      have digit := digitValue_lt (last c (List.mem_singleton.mpr rfl))
      have bound := ih before
      rw [numberOfDigits_concat, List.length_append, List.length_singleton, Nat.pow_succ]
      omega

theorem numberOfDigits_replicate_append (count : Nat) (digits : List Char) :
    numberOfDigits (List.replicate count '0' ++ digits) = numberOfDigits digits := by
  induction count with
  | zero => rfl
  | succ count ih =>
      rw [← ih]
      rfl

/-- A fraction is less than a second. -/
theorem nanoseconds_lt {fraction : List Char} (is : Fraction fraction) :
    nanoseconds fraction < 1000000000 := by
  rcases is with rfl | ⟨digits, rfl, -, each⟩
  · decide
  · have short : (digits.take 9).length ≤ 9 := List.length_take_le 9 digits
    have bound : numberOfDigits (digits.take 9) < 10 ^ (digits.take 9).length :=
      numberOfDigits_lt fun c inside => each c (List.mem_of_mem_take inside)
    have scaled := Nat.mul_lt_mul_of_pos_right bound (show 0 < 10 ^ (9 - (digits.take 9).length) from
      Nat.pow_pos (by decide))
    rw [← Nat.pow_add, Nat.add_sub_cancel' short] at scaled
    exact scaled

/-! ## Constants -/

/-- A number in exactly so many digits. -/
def Writes (count n : Nat) (digits : List Char) : Prop :=
  Width count digits ∧ numberOfDigits digits = n

theorem writes_paddedDigits {count n : Nat} (some_digit : 0 < count) (fits : n < 10 ^ count) :
    Writes count n (paddedDigits count n) := by
  have short : (digitsOf n).length ≤ count := Nat.toDigits_length 10 n count some_digit fits
  refine ⟨⟨?_, ?_⟩, ?_⟩
  · rw [paddedDigits, List.length_append, List.length_replicate, Nat.sub_add_cancel short]
  · refine List.forall_mem_append.mpr ⟨fun c inside => ?_, fun c => Integer.isDigit_of_mem_digitsOf⟩
    rw [List.eq_of_mem_replicate inside]
    decide
  · rw [paddedDigits, numberOfDigits_replicate_append]
    exact (Nat.ofDigitChars_eq_foldl ..).symm.trans Nat.ofDigitChars_ten_toDigits

/-- A constant with a year of four digits, the other fields in two digits, and milliseconds in
three. -/
def Shows (t : DateTime) (constant : List Char) : Prop :=
  ∃ year month day hour minute second millisecond,
    constant = "\x7bts '".toList ++ (year ++ '-' :: (month ++ '-' :: (day ++ ' ' :: (hour ++
      ':' :: (minute ++ ':' :: (second ++ '.' :: (millisecond ++ ['\'', '\x7d']))))))) ∧
    (0 ≤ t.date.year ∧ Writes 4 t.date.year.natAbs year) ∧ Writes 2 t.date.month month ∧
    Writes 2 t.date.day day ∧ Writes 2 t.hour hour ∧ Writes 2 t.minute minute ∧
    Writes 2 t.second second ∧ Writes 3 (t.nanosecond / 1000000) millisecond

theorem toList_sqlConstant_dateTime (t : DateTime) :
    (Literal.dateTime t).sqlConstant.toList =
      "\x7bts '".toList ++ (yearText t.date.year ++ '-' :: (paddedDigits 2 t.date.month ++ '-' ::
        (paddedDigits 2 t.date.day ++ ' ' :: (paddedDigits 2 t.hour ++ ':' ::
        (paddedDigits 2 t.minute ++ ':' :: (paddedDigits 2 t.second ++ '.' ::
        (paddedDigits 3 (t.nanosecond / 1000000) ++ ['\'', '\x7d']))))))) := by
  simp only [Literal.sqlConstant, toMillisecond, toSecond, String.toList_append,
    String.toList_ofList, List.append_assoc, List.cons_append]
  rfl

/-- The constant of a time in the years of four digits shows it. -/
theorem shows_sqlConstant {t : DateTime} (year : 0 ≤ t.date.year ∧ t.date.year ≤ 9999)
    (month : t.date.month ≤ 12) (day : t.date.day ≤ 31) (hour : t.hour ≤ 23)
    (minute : t.minute ≤ 59) (second : t.second ≤ 60) (nanosecond : t.nanosecond < 1000000000) :
    Shows t (Literal.dateTime t).sqlConstant.toList := by
  have plain : yearText t.date.year = paddedDigits 4 t.date.year.natAbs := by
    rw [yearText, if_neg (Int.not_lt.mpr year.1), if_pos year.2]
  rw [toList_sqlConstant_dateTime, plain]
  exact ⟨_, _, _, _, _, _, _, rfl,
    ⟨year.1, writes_paddedDigits (by decide) (by omega)⟩,
    writes_paddedDigits (by decide) (by omega), writes_paddedDigits (by decide) (by omega),
    writes_paddedDigits (by decide) (by omega), writes_paddedDigits (by decide) (by omega),
    writes_paddedDigits (by decide) (by omega), writes_paddedDigits (by decide) (by omega)⟩

theorem Date.daysInMonth_le (year : Int) (month : Nat) : Date.daysInMonth year month ≤ 31 := by
  unfold Date.daysInMonth
  split
  next => split <;> decide
  all_goals decide

theorem DateTime.OnCalendar.shows {t : DateTime} (real : t.OnCalendar)
    (year : 0 ≤ t.date.year ∧ t.date.year ≤ 9999) :
    Shows t (Literal.dateTime t).sqlConstant.toList :=
  shows_sqlConstant year real.date.month.2 (real.date.day.2.trans (Date.daysInMonth_le ..))
    real.hour real.minute (real.second.trans (by decide)) real.nanosecond

/-! ## Instants -/

namespace Written

/-- All digits of a date, or of a date and a time of day with an offset of up to 14 hours. -/
structure Regular (w : Written) : Prop where
  fields : w.Holds (Width 4) (Width 2)
  mark : ∀ c ∈ w.clock, c.mark = 'T'
  fraction : ∀ c ∈ w.clock, c.fraction.length ≤ 10
  zone : w.zone = [] ∨ w.clock ≠ none ∧ (w.zone = ['Z'] ∨ IsOffset ['+', '-'] 840 w.zone)
  year : 1 ≤ w.face.date.year
  date : w.face.date.OnCalendar
  time : w.face.hour ≤ 23 ∧ w.face.minute ≤ 59 ∧ w.face.second ≤ 59

/-- The instant at which the clock shows that time in that zone, in nanoseconds. -/
def instant (w : Written) : Int :=
  w.face.instant - zoneMinutes w.zone * 60 * 1000000000

theorem zoneMinutes_le {signs : List Char} {most : Nat} {zone : List Char}
    (is : IsOffset signs most zone) : -(most : Int) ≤ zoneMinutes zone ∧ zoneMinutes zone ≤ most := by
  obtain ⟨sign, hour, minute, rfl, -, wide, -, -, bound⟩ := is
  obtain ⟨a, b, rfl⟩ := List.length_eq_two.mp wide.1
  simp only [List.cons_append, List.nil_append, zoneMinutes]
  split <;> omega

theorem Regular.face_year {w : Written} (regular : w.Regular) : w.face.date.year ≤ 9999 := by
  have bound := numberOfDigits_lt regular.fields.year.2
  rw [regular.fields.year.1] at bound
  rw [date_face, yearNumber_of_digits regular.fields.year.2]
  dsimp only
  omega

theorem Regular.face_nanosecond {w : Written} (regular : w.Regular) :
    w.face.nanosecond < 1000000000 := by
  unfold face
  split
  next => exact Nat.zero_lt_succ _
  next c clock => exact nanoseconds_lt (regular.fields.clock c clock).fraction

theorem Regular.onCalendar {w : Written} (regular : w.Regular) : w.face.OnCalendar :=
  ⟨regular.date, regular.time.1, regular.time.2.1, regular.time.2.2, regular.face_nanosecond⟩

theorem Regular.short {w : Written} (regular : w.Regular) :
    -1440 < zoneMinutes w.zone ∧ zoneMinutes w.zone < 1440 := by
  rcases regular.zone with zone | ⟨-, zone | offset⟩
  · rw [zone]
    decide
  · rw [zone]
    decide
  · have bound := zoneMinutes_le offset
    omega

theorem Regular.loose {w : Written} (regular : w.Regular) (zone : w.zone = []) : w.Loose where
  fields := regular.fields.mono (fun _ => Width.year) fun _ => Width.field
  mark := regular.mark
  zone := .inl zone

theorem Regular.accepted {w : Written} (regular : w.Regular) : w.Accepted where
  written := by
    rcases regular.zone with zone | ⟨timed, zone⟩
    · exact .inr (regular.loose zone)
    · obtain ⟨c, clock⟩ := Option.ne_none_iff_exists'.mp timed
      refine .inl ⟨regular.fields, ⟨c, clock, .inl (regular.mark c clock)⟩, ?_⟩
      rcases zone with zone | ⟨sign, hour, minute, zone, signs, wide, wide', least, most⟩
      · exact .inl zone
      · exact .inr (.inr ⟨sign, hour, minute, zone, List.mem_append_left ['\u2212'] signs, wide,
          wide', least, by omega⟩)
  real := by
    have first := regular.year
    have last := regular.face_year
    have date := regular.date
    have time := regular.time
    have years : Date.firstYear ≤ w.face.date.year ∧ w.face.date.year ≤ Date.lastYear := by
      rw [Date.firstYear, Date.lastYear]
      omega
    have second : w.face.second ≤ 60 := time.2.2.trans (by decide)
    simp only [isReal, Date.isReal, years, date.month, date.day, time.1, time.2.1, second,
      decide_true, Bool.and_self]

theorem Regular.trim_chars {w : Written} (regular : w.Regular) : trim w.chars = w.chars := by
  refine trim_eq_self ?_ ?_
  · obtain ⟨wide, each⟩ := regular.fields.year
    obtain ⟨d, digits, year⟩ := List.exists_cons_of_length_eq_add_one wide
    rw [chars, year]
    rintro _ ⟨⟩
    exact isBlank_of_isDigit (each d (year ▸ List.mem_cons_self))
  · rcases regular.zone with zone | ⟨-, zone | ⟨sign, hour, minute, zone, -, -, wide, -⟩⟩
    · obtain ⟨c, last, digit⟩ := isDigit_of_getLast? (regular.loose zone)
      rw [chars_eq_append, zone, List.append_nil, last]
      rintro _ ⟨⟩
      exact isBlank_of_isDigit digit
    · rw [chars_eq_append, zone, List.getLast?_concat]
      rintro _ ⟨⟩
      decide
    · obtain ⟨c, last, digit⟩ := exists_getLast_of_numeral wide.numeral
      have final : w.chars.getLast? = some c := by
        rw [chars_eq_append, zone]
        simp [List.getLast?_append, List.getLast?_cons, last]
      rw [final]
      rintro _ ⟨⟩
      exact isBlank_of_isDigit digit

/-- The text is what is written, with blanks around it or without. -/
def Spells (text : List Char) (w : Written) : Prop :=
  ∃ before behind, text = before ++ w.chars ++ behind ∧ Blanks before ∧ Blanks behind

theorem read_of_spells {text : String} {w : Written} (spells : Spells text.toList w)
    (regular : w.Regular) : Literal.read .dateTime text = .ok (.dateTime w.value) := by
  obtain ⟨before, behind, whole, front, back⟩ := spells
  have chars : trim text.toList = w.chars := by
    rw [whole, trim_around w.chars front back, regular.trim_chars]
  rw [Literal.read, chars, read?_chars regular.accepted]
  rfl

/-- A text is read as the time in UTC at the instant that it denotes, whatever zone it is written
in, and the constant shows that time. -/
theorem instant_of_spells {text : String} {w : Written} (spells : Spells text.toList w)
    (regular : w.Regular) :
    (∃ t : DateTime, Literal.read .dateTime text = .ok (.dateTime t) ∧ t.OnCalendar ∧
      t.instant = w.instant ∧
      (t.date.year ≤ 9999 → Shows t (Literal.dateTime t).sqlConstant.toList)) ∧
    ∀ (other : String) (v : Written), Spells other.toList v → v.Regular →
      v.instant = w.instant → Literal.read .dateTime other = Literal.read .dateTime text := by
  have moved {v : Written} (regular : v.Regular) :
      v.value.OnCalendar ∧ v.value.instant = v.instant :=
    ⟨onCalendar_minusMinutes regular.onCalendar _,
      instant_minusMinutes regular.onCalendar regular.short⟩
  obtain ⟨real, same⟩ := moved regular
  constructor
  · refine ⟨w.value, read_of_spells spells regular, real, same, fun last => real.shows ⟨?_, last⟩⟩
    have year := year_minusMinutes w.face (zoneMinutes w.zone)
    have first := regular.year
    rw [value]
    omega
  · intro other v spells' regular' equal
    obtain ⟨real', same'⟩ := moved regular'
    have times : v.value = w.value :=
      eq_of_instant_eq real' real (by rw [same, same', equal])
    rw [read_of_spells spells regular, read_of_spells spells' regular', times]

/-- Half past midnight on New Year's Day, an hour ahead of UTC. -/
def newYear : Written :=
  ⟨['2', '0', '0', '6'], ['0', '1'], ['0', '1'],
    some ⟨'T', ['0', '0'], ['3', '0'], ['0', '0'], ['.', '5']⟩, ['+', '0', '1', ':', '0', '0']⟩

theorem instant_of_newYear :
    Spells "2006-01-01T00:30:00.5+01:00".toList newYear ∧ newYear.Regular ∧
      (∃ t : DateTime, Literal.read .dateTime "2006-01-01T00:30:00.5+01:00" = .ok (.dateTime t) ∧
        t.OnCalendar ∧ t.instant = newYear.instant ∧
        (t.date.year ≤ 9999 → Shows t (Literal.dateTime t).sqlConstant.toList)) ∧
      ∀ (other : String) (v : Written), Spells other.toList v → v.Regular →
        v.instant = newYear.instant →
        Literal.read .dateTime other = Literal.read .dateTime "2006-01-01T00:30:00.5+01:00" := by
  have spells : Spells "2006-01-01T00:30:00.5+01:00".toList newYear :=
    ⟨[], [], by decide, nofun, nofun⟩
  have clock : ∀ c ∈ newYear.clock, c.Holds (Width 2) ∧ c.mark = 'T' ∧ c.fraction.length ≤ 10 := by
    rintro _ ⟨⟩
    exact ⟨⟨by decide, by decide, by decide, .inr ⟨['5'], rfl, by decide, by decide⟩⟩, by decide,
      by decide⟩
  have regular : newYear.Regular :=
    { fields := ⟨by decide, by decide, by decide, fun c inside => (clock c inside).1⟩
      mark := fun c inside => (clock c inside).2.1
      fraction := fun c inside => (clock c inside).2.2
      zone := .inr ⟨nofun, .inr ⟨'+', ['0', '1'], ['0', '0'], by decide⟩⟩
      year := by decide
      date := ⟨by decide, by decide⟩
      time := by decide }
  exact ⟨spells, regular, instant_of_spells spells regular⟩

example : newYear.value = ⟨⟨2005, 12, 31⟩, 23, 30, 0, 500000000⟩ := by decide

end Written

end LearningStore.Value
