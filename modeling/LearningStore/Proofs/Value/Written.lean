import LearningStore.Proofs.Value.DateTimeText

/-!
# Written dates and times

What is written of a date and time are its fields, each as a text.  A text spells the fields of one
written date at most, and the reader accepts a text just when it spells a real date in one of two
notations: in full, with fields of fixed width and an offset, or loosely, without an offset.
-/

namespace LearningStore.Value

open LearningStore.Text
open DateTime

/-- The fields of a time of day behind the mark that separates it from its date. -/
structure Clock where
  mark : Char
  hour : List Char
  minute : List Char
  second : List Char
  fraction : List Char

/-- The fields of a date, with or without a time of day. -/
structure Written where
  year : List Char
  month : List Char
  day : List Char
  clock : Option Clock
  zone : List Char

namespace Clock

def chars (c : Clock) (zone : List Char) : List Char :=
  c.mark :: (c.hour ++ ':' :: (c.minute ++ ':' :: (c.second ++ (c.fraction ++ zone))))

structure Holds (field : List Char → Prop) (c : Clock) : Prop where
  hour : field c.hour
  minute : field c.minute
  second : field c.second
  fraction : Fraction c.fraction

/-- A character that may separate a time of day from its date. -/
def IsMark (c : Char) : Prop :=
  c = 'T' ∨ c = 't' ∨ c = ' '

end Clock

namespace Written

/-- What follows the day. -/
def tail (w : Written) : List Char :=
  match w.clock with
  | none => w.zone
  | some c => c.chars w.zone

def chars (w : Written) : List Char :=
  w.year ++ '-' :: (w.month ++ '-' :: (w.day ++ w.tail))

/-- The year satisfies one condition, and all other fields of numbers another. -/
structure Holds (year field : List Char → Prop) (w : Written) : Prop where
  year : year w.year
  month : field w.month
  day : field w.day
  clock : ∀ c ∈ w.clock, c.Holds field

/-- The time that a clock shows, and midnight for a date alone. -/
def face (w : Written) : DateTime :=
  let date : Date := ⟨yearNumber w.year, number w.month, number w.day⟩
  match w.clock with
  | none => ⟨date, 0, 0, 0, 0⟩
  | some c => ⟨date, number c.hour, number c.minute, number c.second, nanoseconds c.fraction⟩

theorem date_face (w : Written) :
    w.face.date = ⟨yearNumber w.year, number w.month, number w.day⟩ := by
  unfold face
  split <;> rfl

/-- The time in UTC. -/
def value (w : Written) : DateTime :=
  w.face.minusMinutes (zoneMinutes w.zone)

/-- Fields of fixed width, and an offset from UTC. -/
structure Full (w : Written) : Prop where
  fields : w.Holds (Width 4) (Width 2)
  timed : ∃ c, w.clock = some c ∧ Clock.IsMark c.mark
  zone : FullZone w.zone

/-- Fields that may have fewer digits and blanks in front, and no offset but the letter Z. -/
structure Loose (w : Written) : Prop where
  fields : w.Holds Year Field
  mark : ∀ c ∈ w.clock, c.mark = 'T'
  zone : w.zone = [] ∨ w.zone = ['Z']

structure Accepted (w : Written) : Prop where
  written : w.Full ∨ w.Loose
  real : w.face.isReal = true

/-! ## The fields of a text -/

/-- What is common to all notations. -/
structure Formed (w : Written) : Prop where
  fields : w.Holds Numeral Numeral
  mark : ∀ c ∈ w.clock, Clock.IsMark c.mark
  zone : ∀ c ∈ w.zone.head?, c ∈ ['Z', 'z', '+', '-', '\u2212']

theorem Holds.mono {year year' field field' : List Char → Prop} {w : Written}
    (holds : w.Holds year field) (years : ∀ s, year s → year' s)
    (others : ∀ s, field s → field' s) : w.Holds year' field' where
  year := years _ holds.year
  month := others _ holds.month
  day := others _ holds.day
  clock c inside :=
    have clock := holds.clock c inside
    ⟨others _ clock.hour, others _ clock.minute, others _ clock.second, clock.fraction⟩

/-- What a zone begins with that stands for no offset. -/
theorem zone_begins {zone : List Char} (plain : zone = [] ∨ zone = ['Z'] ∨ zone = ['z']) :
    ∀ c ∈ zone.head?, c ∈ ['Z', 'z', '+', '-', '\u2212'] := by
  rcases plain with rfl | rfl | rfl
  · exact nofun
  · rintro _ ⟨⟩
    decide
  · rintro _ ⟨⟩
    decide

theorem Full.formed {w : Written} (full : w.Full) : w.Formed where
  fields := full.fields.mono (fun _ => Width.numeral) fun _ => Width.numeral
  mark := by
    obtain ⟨c, clock, mark⟩ := full.timed
    rw [clock]
    rintro _ ⟨⟩
    exact mark
  zone := by
    rcases full.zone with zone | zone | ⟨sign, hour, minute, zone, signs, -⟩
    · exact zone_begins (.inr (.inl zone))
    · exact zone_begins (.inr (.inr zone))
    · rw [zone]
      rintro _ ⟨⟩
      exact List.mem_cons_of_mem _ (List.mem_cons_of_mem _ signs)

theorem Loose.formed {w : Written} (loose : w.Loose) : w.Formed where
  fields := loose.fields.mono (fun _ => Year.numeral) fun _ => Field.numeral
  mark c inside := .inl (loose.mark c inside)
  zone := zone_begins (loose.zone.imp_right .inl)

theorem Accepted.formed {w : Written} (accepted : w.Accepted) : w.Formed :=
  accepted.written.elim Full.formed Loose.formed

theorem breaks_cons {c : Char} {rest : List Char} (other : isDigit c = false) :
    Breaks (c :: rest) := by
  rintro _ ⟨⟩
  exact other

theorem breaks_of_zone {zone : List Char}
    (starts : ∀ c ∈ zone.head?, c ∈ ['Z', 'z', '+', '-', '\u2212']) : Breaks zone := by
  have each : (['Z', 'z', '+', '-', '\u2212'].all fun c => !isDigit c) = true := by decide
  intro c first
  simpa using List.all_eq_true.mp each c (starts c first)

theorem breaks_fraction_append {fraction zone : List Char} (is : Fraction fraction)
    (ends : Breaks zone) : Breaks (fraction ++ zone) := by
  rcases is with rfl | ⟨digits, rfl, -⟩
  · exact ends
  · exact breaks_cons (by decide)

theorem Formed.breaks_tail {w : Written} (formed : w.Formed) : Breaks w.tail := by
  have marks : isDigit 'T' = false ∧ isDigit 't' = false ∧ isDigit ' ' = false := by decide
  unfold tail
  split
  next => exact breaks_of_zone formed.zone
  next c clock =>
    refine breaks_cons ?_
    rcases formed.mark c clock with mark | mark | mark <;> rw [mark]
    · exact marks.1
    · exact marks.2.1
    · exact marks.2.2

theorem fraction_append_inj {f g zone zone' : List Char} (first : Fraction f) (second : Fraction g)
    (ends : ∀ c ∈ zone.head?, c ∈ ['Z', 'z', '+', '-', '\u2212'])
    (stops : ∀ c ∈ zone'.head?, c ∈ ['Z', 'z', '+', '-', '\u2212'])
    (same : f ++ zone = g ++ zone') : f = g ∧ zone = zone' := by
  have unpointed : '.' ∉ ['Z', 'z', '+', '-', '\u2212'] := by decide
  rcases first with rfl | ⟨digits, rfl, nonempty, each⟩ <;>
    rcases second with rfl | ⟨digits', rfl, nonempty', each'⟩
  · exact ⟨rfl, same⟩
  · rw [List.nil_append] at same
    exact absurd (ends '.' (by rw [same]; rfl)) unpointed
  · rw [List.nil_append] at same
    exact absurd (stops '.' (by rw [← same]; rfl)) unpointed
  · have tails := List.tail_eq_of_cons_eq same
    obtain ⟨rfl, zones⟩ := Numeral.append_inj ⟨[], digits, rfl, nofun, nonempty, each⟩
      ⟨[], digits', rfl, nofun, nonempty', each'⟩ (breaks_of_zone ends) (breaks_of_zone stops) tails
    exact ⟨rfl, zones⟩

/-- A field in front of a mark that is no digit. -/
theorem field_cons_inj {f g rest rest' : List Char} {c d : Char} (first : Numeral f)
    (second : Numeral g) (ends : isDigit c = false) (stops : isDigit d = false)
    (same : f ++ c :: rest = g ++ d :: rest') : f = g ∧ rest = rest' := by
  obtain ⟨fields, rests⟩ :=
    first.append_inj second (breaks_cons ends) (breaks_cons stops) same
  exact ⟨fields, List.tail_eq_of_cons_eq rests⟩

theorem clock_chars_inj {c d : Clock} {zone zone' : List Char} (first : c.Holds Numeral)
    (second : d.Holds Numeral) (ends : ∀ c ∈ zone.head?, c ∈ ['Z', 'z', '+', '-', '\u2212'])
    (stops : ∀ c ∈ zone'.head?, c ∈ ['Z', 'z', '+', '-', '\u2212'])
    (same : c.chars zone = d.chars zone') : c = d ∧ zone = zone' := by
  have colon : isDigit ':' = false := by decide
  obtain ⟨marks, same⟩ := List.cons_eq_cons.mp same
  obtain ⟨hours, same⟩ := field_cons_inj first.hour second.hour colon colon same
  obtain ⟨minutes, same⟩ := field_cons_inj first.minute second.minute colon colon same
  obtain ⟨seconds, same⟩ := first.second.append_inj second.second
    (breaks_fraction_append first.fraction (breaks_of_zone ends))
    (breaks_fraction_append second.fraction (breaks_of_zone stops)) same
  obtain ⟨fractions, zones⟩ :=
    fraction_append_inj first.fraction second.fraction ends stops same
  obtain ⟨⟩ := c
  obtain ⟨⟩ := d
  simp_all only [and_self]

/-- No time of day starts like a zone. -/
theorem zone_ne_clock_chars {zone : List Char} {c : Clock} (mark : Clock.IsMark c.mark)
    (starts : ∀ c ∈ zone.head?, c ∈ ['Z', 'z', '+', '-', '\u2212']) (rest : List Char) :
    zone ≠ c.chars rest := by
  rintro rfl
  have inside := starts c.mark rfl
  rcases mark with mark | mark | mark <;> rw [mark] at inside <;> exact absurd inside (by decide)

/-- A text spells one written date at most. -/
theorem eq_of_chars_eq {w v : Written} (first : w.Formed) (second : v.Formed)
    (same : w.chars = v.chars) : w = v := by
  have hyphen : isDigit '-' = false := by decide
  obtain ⟨years, same⟩ := field_cons_inj first.fields.year second.fields.year hyphen hyphen same
  obtain ⟨months, same⟩ :=
    field_cons_inj first.fields.month second.fields.month hyphen hyphen same
  obtain ⟨days, same⟩ := first.fields.day.append_inj second.fields.day first.breaks_tail
    second.breaks_tail same
  obtain ⟨year, month, day, clock, zone⟩ := w
  obtain ⟨year', month', day', clock', zone'⟩ := v
  cases years
  cases months
  cases days
  cases clock with
  | none =>
      cases clock' with
      | none =>
          cases same
          rfl
      | some d => exact absurd same (zone_ne_clock_chars (second.mark d rfl) first.zone zone')
  | some c =>
      cases clock' with
      | none =>
          exact absurd same.symm (zone_ne_clock_chars (first.mark c rfl) second.zone zone)
      | some d =>
          obtain ⟨rfl, rfl⟩ := clock_chars_inj (first.fields.clock c rfl)
            (second.fields.clock d rfl) first.zone second.zone same
          rfl

/-! ## Reading -/

theorem skipMark?_eq_some_iff {s rest : List Char} :
    skipMark? s = some rest ↔ ∃ c, s = c :: rest ∧ Clock.IsMark c := by
  cases s with
  | nil => simp [skipMark?]
  | cons d tail => simp [skipMark?, Clock.IsMark, and_comm]

theorem date?_eq_some {s rest : List Char} {date : Date} (read : date? s = some (date, rest)) :
    ∃ year month day, s = year ++ '-' :: (month ++ '-' :: (day ++ rest)) ∧ Year year ∧
      Field month ∧ Field day ∧ date = ⟨yearNumber year, number month, number day⟩ := by
  simp only [date?, Option.bind_eq_bind, Option.bind_eq_some_iff, Prod.exists,
    skip?_eq_some_iff, Option.some.injEq, Prod.mk.injEq] at read
  obtain ⟨_, _, years, _, rfl, _, _, months, _, rfl, _, _, days, rfl, rfl⟩ := read
  obtain ⟨year, rfl, isYear, rfl⟩ := year?_eq_some years
  obtain ⟨month, rfl, isMonth, rfl⟩ := field?_eq_some months
  obtain ⟨day, rfl, isDay, rfl⟩ := field?_eq_some days
  exact ⟨year, month, day, rfl, isYear, isMonth, isDay, rfl⟩

theorem date?_append {year month day rest : List Char} (isYear : Year year) (isMonth : Field month)
    (isDay : Field day) (ends : Breaks rest) :
    date? (year ++ '-' :: (month ++ '-' :: (day ++ rest))) =
      some (⟨yearNumber year, number month, number day⟩, rest) := by
  have hyphen {rest : List Char} : Breaks ('-' :: rest) := breaks_cons (by decide)
  simp only [date?, year?_append isYear hyphen, field?_append isMonth hyphen,
    field?_append isDay ends, skip?_self, Option.bind_eq_bind, Option.bind_some]

theorem face_of_widths {w : Written} {c : Clock} (fields : w.Holds (Width 4) (Width 2))
    (clock : w.clock = some c) :
    w.face = ⟨⟨numberOfDigits w.year, numberOfDigits w.month, numberOfDigits w.day⟩,
      numberOfDigits c.hour, numberOfDigits c.minute, numberOfDigits c.second,
      nanoseconds c.fraction⟩ := by
  have times := fields.clock c clock
  simp only [face, clock, yearNumber_of_digits fields.year.2, number_of_digits fields.month.2,
    number_of_digits fields.day.2, number_of_digits times.hour.2, number_of_digits times.minute.2,
    number_of_digits times.second.2]

/-- The parts that the reader takes one after the other where it expects an offset. -/
theorem withOffset?_eq_some_iff {s : List Char} {t : DateTime} :
    withOffset? s = some t ↔ ∃ year month day mark hour minute second points zone nanosecond offset,
      s = year ++ '-' :: (month ++ '-' :: (day ++ mark :: (hour ++ ':' :: (minute ++ ':' ::
        (second ++ points))))) ∧
      Width 4 year ∧ (Width 2 month ∧ Width 2 day) ∧ Clock.IsMark mark ∧
      (Width 2 hour ∧ Width 2 minute ∧ Width 2 second) ∧
      fraction? points = some (nanosecond, zone) ∧ offset? zone = some (offset, []) ∧
      ∃ clock : DateTime, clock = ⟨⟨numberOfDigits year, numberOfDigits month,
        numberOfDigits day⟩, numberOfDigits hour, numberOfDigits minute, numberOfDigits second,
        nanosecond⟩ ∧ clock.isReal = true ∧ clock.minusMinutes offset = t := by
  simp only [withOffset?, ↓Option.bind_eq_bind, ↓Option.bind_eq_some_iff, ↓Prod.exists,
    skip?_eq_some_iff, exactly?_eq_some_iff, skipMark?_eq_some_iff, Option.ite_none_right_eq_some,
    Option.some.injEq, Bool.and_eq_true, List.isEmpty_iff]
  constructor
  · rintro ⟨_, _, ⟨year, rfl, isYear, rfl⟩, _, rfl, _, _, ⟨month, rfl, isMonth, rfl⟩, _, rfl, _, _,
      ⟨day, rfl, isDay, rfl⟩, _, ⟨mark, rfl, isMark⟩, _, _, ⟨hour, rfl, isHour, rfl⟩, _, rfl, _, _,
      ⟨minute, rfl, isMinute, rfl⟩, _, rfl, _, _, ⟨second, rfl, isSecond, rfl⟩, _, _, points, _, _,
      zones, ⟨rfl, real⟩, rfl⟩
    exact ⟨year, month, day, mark, hour, minute, second, _, _, _, _, rfl, isYear, ⟨isMonth, isDay⟩,
      isMark, ⟨isHour, isMinute, isSecond⟩, points, zones, _, rfl, real, rfl⟩
  · rintro ⟨year, month, day, mark, hour, minute, second, _, _, _, _, rfl, isYear,
      ⟨isMonth, isDay⟩, isMark, ⟨isHour, isMinute, isSecond⟩, points, zones, _, rfl, real, rfl⟩
    exact ⟨_, _, ⟨_, rfl, isYear, rfl⟩, _, rfl, _, _, ⟨_, rfl, isMonth, rfl⟩, _, rfl, _, _,
      ⟨_, rfl, isDay, rfl⟩, _, ⟨_, rfl, isMark⟩, _, _, ⟨_, rfl, isHour, rfl⟩, _, rfl, _, _,
      ⟨_, rfl, isMinute, rfl⟩, _, rfl, _, _, ⟨_, rfl, isSecond, rfl⟩, _, _, points, _, _, zones,
      ⟨rfl, real⟩, rfl⟩

theorem exists_accepted_of_withOffset {s : List Char} {t : DateTime}
    (read : withOffset? s = some t) : ∃ w : Written, w.chars = s ∧ w.Accepted ∧ w.value = t := by
  obtain ⟨year, month, day, mark, hour, minute, second, _, _, _, _, rfl, isYear, ⟨isMonth, isDay⟩,
    isMark, ⟨isHour, isMinute, isSecond⟩, points, zones, _, rfl, real, rfl⟩ :=
      withOffset?_eq_some_iff.mp read
  obtain ⟨fraction, rfl, isFraction, rfl⟩ := fraction?_eq_some points
  obtain ⟨zone, rfl, isZone, rfl⟩ := offset?_eq_some zones
  let c : Clock := ⟨mark, hour, minute, second, fraction⟩
  let w : Written := ⟨year, month, day, some c, zone⟩
  have fields : w.Holds (Width 4) (Width 2) := by
    refine ⟨isYear, isMonth, isDay, ?_⟩
    rintro _ ⟨⟩
    exact ⟨isHour, isMinute, isSecond, isFraction⟩
  have face := face_of_widths fields rfl
  refine ⟨w, ?_, ⟨.inl ⟨fields, ⟨c, rfl, isMark⟩, isZone⟩, face ▸ real⟩, ?_⟩
  · simp [w, c, chars, tail, Clock.chars]
  · rw [value, face]

theorem withOffset?_chars {w : Written} (full : w.Full) (real : w.face.isReal = true) :
    withOffset? w.chars = some w.value := by
  obtain ⟨c, clock, isMark⟩ := full.timed
  have times := full.fields.clock c clock
  have zoned := breaks_of_zone full.formed.zone
  have unpointed : w.zone.head? ≠ some '.' := fun first =>
    absurd (full.formed.zone '.' first) (by decide)
  have points := fraction?_append times.fraction zoned unpointed
  have zones : offset? (w.zone ++ []) = some (zoneMinutes w.zone, []) := offset?_append full.zone
  rw [List.append_nil] at zones
  have whole : w.chars = w.year ++ '-' :: (w.month ++ '-' :: (w.day ++ c.chars w.zone)) := by
    rw [chars, tail, clock]
  exact withOffset?_eq_some_iff.mpr ⟨_, _, _, _, _, _, _, _, _, _, _, whole, full.fields.year,
    ⟨full.fields.month, full.fields.day⟩, isMark, ⟨times.hour, times.minute, times.second⟩, points,
    zones, w.face, face_of_widths full.fields clock, real, rfl⟩

theorem withoutOffset?_eq_some {s : List Char} {t : DateTime} (read : withoutOffset? s = some t) :
    ∃ w : Written, w.chars = s ∧ w.Loose ∧ w.zone = [] ∧ w.face = t ∧ t.isReal = true := by
  simp only [withoutOffset?, Option.bind_eq_bind, Option.bind_eq_some_iff, Prod.exists,
    skip?_eq_some_iff, Option.ite_none_right_eq_some, Option.some.injEq, Bool.and_eq_true,
    List.isEmpty_iff] at read
  obtain ⟨_, _, dates, _, rfl, _, _, hours, _, rfl, _, _, minutes, _, rfl, _, _, seconds, _, _,
    points, ⟨rfl, real⟩, rfl⟩ := read
  obtain ⟨year, month, day, rfl, isYear, isMonth, isDay, rfl⟩ := date?_eq_some dates
  obtain ⟨hour, rfl, isHour, rfl⟩ := field?_eq_some hours
  obtain ⟨minute, rfl, isMinute, rfl⟩ := field?_eq_some minutes
  obtain ⟨second, rfl, isSecond, rfl⟩ := field?_eq_some seconds
  obtain ⟨fraction, rfl, isFraction, rfl⟩ := fraction?_eq_some points
  refine ⟨⟨year, month, day, some ⟨'T', hour, minute, second, fraction⟩, []⟩, rfl,
    ⟨⟨isYear, isMonth, isDay, ?_⟩, ?_, .inl rfl⟩, rfl, rfl, real⟩
  · rintro _ ⟨⟩
    exact ⟨isHour, isMinute, isSecond, isFraction⟩
  · rintro _ ⟨⟩
    rfl

theorem midnight?_eq_some {s : List Char} {t : DateTime} (read : midnight? s = some t) :
    ∃ w : Written, w.chars = s ∧ w.Loose ∧ w.zone = [] ∧ w.face = t ∧ t.isReal = true := by
  simp only [midnight?, Option.bind_eq_bind, Option.bind_eq_some_iff, Prod.exists,
    Option.ite_none_right_eq_some, Option.some.injEq, Bool.and_eq_true, List.isEmpty_iff] at read
  obtain ⟨_, _, dates, ⟨rfl, real⟩, rfl⟩ := read
  obtain ⟨year, month, day, rfl, isYear, isMonth, isDay, rfl⟩ := date?_eq_some dates
  refine ⟨⟨year, month, day, none, []⟩, rfl, ⟨⟨isYear, isMonth, isDay, nofun⟩, nofun, .inl rfl⟩,
    rfl, rfl, ?_⟩
  simp [isReal, real]

/-- The fields without the zone. -/
def unzoned (w : Written) : Written :=
  { w with zone := [] }

theorem chars_eq_append (w : Written) : w.chars = w.unzoned.chars ++ w.zone := by
  obtain ⟨year, month, day, clock, zone⟩ := w
  cases clock <;> simp [chars, tail, unzoned, Clock.chars]

theorem Loose.unzoned {w : Written} (loose : w.Loose) : w.unzoned.Loose :=
  ⟨⟨loose.fields.year, loose.fields.month, loose.fields.day, loose.fields.clock⟩, loose.mark,
    .inl rfl⟩

theorem withoutOffset?_chars {w : Written} {c : Clock} (loose : w.Loose) (clock : w.clock = some c)
    (real : w.face.isReal = true) : withoutOffset? w.unzoned.chars = some w.face := by
  have times := loose.fields.clock c clock
  have colon {rest : List Char} : Breaks (':' :: rest) := breaks_cons (by decide)
  have mark : c.mark = 'T' := loose.mark c clock
  have dated {rest : List Char} := date?_append loose.fields.year loose.fields.month
    loose.fields.day (breaks_cons (show isDigit 'T' = false by decide) : Breaks ('T' :: rest))
  have points : fraction? (c.fraction ++ []) = some (nanoseconds c.fraction, []) :=
    fraction?_append times.fraction nofun nofun
  have behind : Breaks (c.fraction ++ []) := breaks_fraction_append times.fraction nofun
  have face : w.face = ⟨⟨yearNumber w.year, number w.month, number w.day⟩, number c.hour,
      number c.minute, number c.second, nanoseconds c.fraction⟩ := by
    simp only [Written.face, clock]
  rw [face] at real ⊢
  simp only [withoutOffset?, chars, tail, Written.unzoned, clock, Clock.chars, mark, dated,
    field?_append times.hour colon, field?_append times.minute colon,
    field?_append times.second behind, points, skip?_self, real, Option.bind_eq_bind,
    Option.bind_some]
  rfl

theorem midnight?_chars {w : Written} (loose : w.Loose) (clock : w.clock = none)
    (real : w.face.isReal = true) : midnight? w.unzoned.chars = some w.face := by
  have dated : date? (w.year ++ '-' :: (w.month ++ '-' :: (w.day ++ []))) =
      some (⟨yearNumber w.year, number w.month, number w.day⟩, []) :=
    date?_append loose.fields.year loose.fields.month loose.fields.day nofun
  have face : w.face = ⟨⟨yearNumber w.year, number w.month, number w.day⟩, 0, 0, 0, 0⟩ := by
    simp only [Written.face, clock]
  have date : w.face.date.isReal = true := by
    simp only [isReal, Bool.and_eq_true] at real
    exact real.1.1.1
  rw [face] at date ⊢
  simp only [midnight?, chars, tail, Written.unzoned, clock, dated, date, Option.bind_eq_bind,
    Option.bind_some]
  rfl

theorem exists_getLast_of_numeral {field : List Char} (is : Numeral field) :
    ∃ c, field.getLast? = some c ∧ isDigit c = true := by
  obtain ⟨front, digits, rfl, -, nonempty, each⟩ := is
  refine ⟨digits.getLast nonempty, ?_, each _ (List.getLast_mem nonempty)⟩
  rw [List.getLast?_append, List.getLast?_eq_some_getLast nonempty]
  rfl

theorem isDigit_of_getLast? {w : Written} (loose : w.Loose) :
    ∃ c, w.unzoned.chars.getLast? = some c ∧ isDigit c = true := by
  obtain ⟨year, month, day, clock, zone⟩ := w
  cases clock with
  | none =>
      obtain ⟨c, last, digit⟩ := exists_getLast_of_numeral loose.formed.fields.day
      exact ⟨c, by simp [chars, tail, unzoned, List.getLast?_append, List.getLast?_cons, last],
        digit⟩
  | some clock =>
      have times := loose.formed.fields.clock clock rfl
      rcases times.fraction with fraction | ⟨digits, fraction, nonempty, each⟩
      · obtain ⟨c, last, digit⟩ := exists_getLast_of_numeral times.second
        exact ⟨c, by simp [chars, tail, unzoned, Clock.chars, List.getLast?_append,
          List.getLast?_cons, fraction, last], digit⟩
      · obtain ⟨c, last, digit⟩ :=
          exists_getLast_of_numeral ⟨['.'], digits, rfl, List.forall_mem_singleton.mpr rfl,
            nonempty, each⟩
        rw [List.singleton_append, ← fraction] at last
        exact ⟨c, by simp [chars, tail, unzoned, Clock.chars, List.getLast?_append,
          List.getLast?_cons, last], digit⟩

theorem dropFinalZ_chars {w : Written} (loose : w.Loose) :
    dropFinalZ w.chars = w.unzoned.chars := by
  rw [chars_eq_append]
  rcases loose.zone with zone | zone <;> rw [zone]
  · obtain ⟨c, last, digit⟩ := isDigit_of_getLast? loose
    rw [List.append_nil, dropFinalZ, last, if_neg]
    rintro ⟨⟩
    exact absurd digit (by decide)
  · rw [dropFinalZ, List.getLast?_concat, if_pos rfl, List.dropLast_concat]

theorem exists_dropFinalZ (s : List Char) :
    ∃ z, s = dropFinalZ s ++ z ∧ (z = [] ∨ z = ['Z']) := by
  unfold dropFinalZ
  split
  next last =>
    obtain ⟨front, rfl⟩ := List.getLast?_eq_some_iff.mp last
    exact ⟨['Z'], by rw [List.dropLast_concat], .inr rfl⟩
  next => exact ⟨[], (List.append_nil s).symm, .inl rfl⟩

/-- A time without an offset is one in UTC. -/
theorem Loose.value_eq {w : Written} (loose : w.Loose) (real : w.face.isReal = true) :
    w.value = w.face := by
  have none : zoneMinutes w.zone = 0 := by
    rcases loose.zone with zone | zone <;> rw [zone] <;> rfl
  simp only [isReal, Bool.and_eq_true, decide_eq_true_eq] at real
  rw [value, none, minusMinutes_zero real.1.1.2 real.1.2]

/-- What is read without an offset is read with one Z behind it too. -/
theorem exists_accepted_of_dropFinalZ {s : List Char} {w : Written} {t : DateTime}
    (spelled : w.chars = dropFinalZ s) (loose : w.Loose) (zone : w.zone = []) (face : w.face = t)
    (real : t.isReal = true) : ∃ v : Written, v.chars = s ∧ v.Accepted ∧ v.value = t := by
  obtain ⟨z, whole, isZone⟩ := exists_dropFinalZ s
  let v : Written := { w with zone := z }
  have unzoned : v.unzoned = w := by
    obtain ⟨⟩ := w
    cases zone
    rfl
  have loose' : v.Loose :=
    ⟨⟨loose.fields.year, loose.fields.month, loose.fields.day, loose.fields.clock⟩, loose.mark,
      isZone⟩
  have face' : v.face = t := face
  refine ⟨v, ?_, ⟨.inr loose', face' ▸ real⟩, ?_⟩
  · rw [chars_eq_append, unzoned, spelled]
    exact whole.symm
  · rw [loose'.value_eq (face' ▸ real), face']

theorem exists_accepted_of_read {s : List Char} {t : DateTime} (read : read? s = some t) :
    ∃ w : Written, w.chars = s ∧ w.Accepted ∧ w.value = t := by
  simp only [read?, Option.orElse_eq_or, Option.or_eq_some_iff] at read
  rcases read with offset | ⟨-, noOffset | ⟨-, midnight⟩⟩
  · exact exists_accepted_of_withOffset offset
  · obtain ⟨w, spelled, loose, zone, face, real⟩ := withoutOffset?_eq_some noOffset
    exact exists_accepted_of_dropFinalZ spelled loose zone face real
  · obtain ⟨w, spelled, loose, zone, face, real⟩ := midnight?_eq_some midnight
    exact exists_accepted_of_dropFinalZ spelled loose zone face real

theorem read?_chars {w : Written} (accepted : w.Accepted) : read? w.chars = some w.value := by
  cases read : read? w.chars with
  | some t =>
      obtain ⟨v, same, also, rfl⟩ := exists_accepted_of_read read
      rw [eq_of_chars_eq also.formed accepted.formed same]
  | none =>
      simp only [read?, Option.orElse_eq_or, Option.or_eq_none_iff] at read
      obtain ⟨noOffset, noLocal, noMidnight⟩ := read
      rcases accepted.written with full | loose
      · rw [withOffset?_chars full accepted.real] at noOffset
        cases noOffset
      · rw [dropFinalZ_chars loose] at noLocal noMidnight
        cases clock : w.clock with
        | none =>
            rw [midnight?_chars loose clock accepted.real] at noMidnight
            cases noMidnight
        | some c =>
            rw [withoutOffset?_chars loose clock accepted.real] at noLocal
            cases noLocal

/-- The texts that are read are those that spell an accepted written date, with its time in UTC. -/
theorem read?_eq_some_iff {s : List Char} {t : DateTime} :
    read? s = some t ↔ ∃ w : Written, w.chars = s ∧ w.Accepted ∧ w.value = t := by
  constructor
  · exact exists_accepted_of_read
  · rintro ⟨w, rfl, accepted, rfl⟩
    exact read?_chars accepted

end Written

end LearningStore.Value
