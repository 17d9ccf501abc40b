import LearningStore.Value.Calendar
import Mathlib.Order.Monotone.Basic
import Mathlib.Algebra.Order.Ring.Int

/-!
# Days and instants

The days of the calendar are numbered, and a date with a time of day is an instant, counted in
nanoseconds.  Moving a time by minutes moves its instant by as much, and no two times of the
calendar are the same instant.
-/

namespace LearningStore.Value

namespace Date

/-- The fields name a day of the calendar, in whatever year. -/
structure OnCalendar (d : Date) : Prop where
  month : 1 ≤ d.month ∧ d.month ≤ 12
  day : 1 ≤ d.day ∧ d.day ≤ daysInMonth d.year d.month

/-! ## Numbers of days -/

/-- The days from the start of the year 1 to the start of a year. -/
def daysBeforeYear (year : Int) : Int :=
  365 * (year - 1) + (year - 1) / 4 - (year - 1) / 100 + (year - 1) / 400

/-- The days of the months of a year before a month. -/
def daysBeforeMonth (year : Int) : Nat → Nat
  | 0 => 0
  | 1 => 0
  | month + 2 => daysBeforeMonth year (month + 1) + daysInMonth year (month + 1)

/-- The number of a day: the first of January of the year 1 is day 1. -/
def dayNumber (d : Date) : Int :=
  daysBeforeYear d.year + daysBeforeMonth d.year d.month + d.day

example : dayNumber ⟨2000, 3, 1⟩ - dayNumber ⟨1999, 12, 31⟩ = 61 := by decide

theorem isLeapYear_iff {year : Int} :
    isLeapYear year = true ↔ year % 4 = 0 ∧ (year % 100 ≠ 0 ∨ year % 400 = 0) := by
  simp [isLeapYear]

theorem daysBeforeYear_succ (year : Int) :
    daysBeforeYear (year + 1) = daysBeforeYear year + if isLeapYear year then 366 else 365 := by
  unfold daysBeforeYear
  split
  next leap =>
    have cycle := isLeapYear_iff.mp leap
    omega
  next common =>
    have cycle := mt isLeapYear_iff.mpr common
    omega

theorem daysBeforeYear_mono {year later : Int} (ordered : year ≤ later) :
    daysBeforeYear year ≤ daysBeforeYear later := by
  have mono : Monotone daysBeforeYear := by
    refine monotone_int_of_le_succ fun year => ?_
    rw [daysBeforeYear_succ]
    split <;> omega
  exact mono ordered

theorem daysBeforeMonth_succ (year : Int) {month : Nat} (first : 1 ≤ month) :
    daysBeforeMonth year (month + 1) = daysBeforeMonth year month + daysInMonth year month := by
  obtain ⟨before, rfl⟩ := Nat.exists_eq_add_of_le' first
  rfl

theorem daysBeforeMonth_mono (year : Int) : Monotone (daysBeforeMonth year) := by
  refine monotone_nat_of_le_succ fun month => ?_
  cases month with
  | zero => exact Nat.le_refl 0
  | succ month => exact Nat.le_add_right ..

/-- December is the last month of a year. -/
theorem daysBeforeMonth_thirteen (year : Int) :
    daysBeforeMonth year 13 = if isLeapYear year then 366 else 365 := by
  simp only [daysBeforeMonth, daysInMonth]
  split <;> rfl

/-- The days of a year lie behind its start and not behind the start of the next one. -/
theorem dayNumber_within {d : Date} (real : d.OnCalendar) :
    daysBeforeYear d.year < d.dayNumber ∧ d.dayNumber ≤ daysBeforeYear (d.year + 1) := by
  have inMonth := real.day
  have inYear : daysBeforeMonth d.year (d.month + 1) ≤ daysBeforeMonth d.year 13 :=
    daysBeforeMonth_mono d.year (by have := real.month; omega)
  rw [daysBeforeMonth_succ _ real.month.1, daysBeforeMonth_thirteen] at inYear
  rw [daysBeforeYear_succ, dayNumber]
  constructor
  · omega
  · split at inYear <;> simp_all <;> omega

theorem year_le_of_dayNumber_eq {d e : Date} (first : d.OnCalendar) (second : e.OnCalendar)
    (same : d.dayNumber = e.dayNumber) : d.year ≤ e.year := by
  by_contra later
  have ordered : daysBeforeYear (e.year + 1) ≤ daysBeforeYear d.year :=
    daysBeforeYear_mono (by omega)
  have behind := dayNumber_within first
  have before := dayNumber_within second
  omega

/-- The days of a month lie behind its start and not behind the start of the next one. -/
theorem month_le_of_dayNumber_eq {d e : Date} (first : d.OnCalendar) (second : e.OnCalendar)
    (year : d.year = e.year) (same : d.dayNumber = e.dayNumber) : d.month ≤ e.month := by
  by_contra later
  have ordered : daysBeforeMonth e.year (e.month + 1) ≤ daysBeforeMonth e.year d.month :=
    daysBeforeMonth_mono e.year (by omega)
  have behind := first.day
  have before := second.day
  rw [daysBeforeMonth_succ _ second.month.1] at ordered
  rw [dayNumber, dayNumber, year] at same
  omega

/-- A day of the calendar has one date only. -/
theorem eq_of_dayNumber_eq {d e : Date} (first : d.OnCalendar) (second : e.OnCalendar)
    (same : d.dayNumber = e.dayNumber) : d = e := by
  have year : d.year = e.year :=
    Int.le_antisymm (year_le_of_dayNumber_eq first second same)
      (year_le_of_dayNumber_eq second first same.symm)
  have month : d.month = e.month :=
    Nat.le_antisymm (month_le_of_dayNumber_eq first second year same)
      (month_le_of_dayNumber_eq second first year.symm same.symm)
  have day : d.day = e.day := by
    rw [dayNumber, dayNumber, year, month] at same
    omega
  obtain ⟨⟩ := d
  obtain ⟨⟩ := e
  simp_all only

/-! ## The days around a day -/

theorem daysInMonth_pos (year : Int) (month : Nat) : 1 ≤ daysInMonth year month := by
  unfold daysInMonth
  split
  next => split <;> decide
  all_goals decide

theorem onCalendar_next {d : Date} (real : d.OnCalendar) : d.next.OnCalendar := by
  have month := real.month
  have day := real.day
  unfold next
  split
  next inside => exact ⟨month, by dsimp only; omega⟩
  next =>
    split
    next inside => exact ⟨by dsimp only; omega, Nat.le_refl 1, daysInMonth_pos _ _⟩
    next => exact ⟨⟨Nat.le_refl 1, by simp⟩, Nat.le_refl 1, daysInMonth_pos _ _⟩

theorem onCalendar_previous {d : Date} (real : d.OnCalendar) : d.previous.OnCalendar := by
  have month := real.month
  have day := real.day
  unfold previous
  split
  next inside => exact ⟨month, by dsimp only; omega⟩
  next =>
    split
    next inside => exact ⟨by dsimp only; omega, daysInMonth_pos _ _, Nat.le_refl _⟩
    next => exact ⟨⟨by simp, Nat.le_refl 12⟩, by simp, Nat.le_refl 31⟩

theorem dayNumber_next {d : Date} (real : d.OnCalendar) :
    d.next.dayNumber = d.dayNumber + 1 := by
  have month := real.month
  have day := real.day
  unfold next
  split
  next inside => simp only [dayNumber]; omega
  next =>
    have last : d.day = daysInMonth d.year d.month := by omega
    have behind := daysBeforeMonth_succ d.year month.1
    split
    next inside =>
      simp only [dayNumber]
      omega
    next =>
      have december : d.month = 12 := by omega
      have whole := daysBeforeMonth_thirteen d.year
      simp only [dayNumber, daysBeforeYear_succ, daysBeforeMonth]
      rw [december] at behind last ⊢
      split at whole <;> simp_all <;> omega

theorem dayNumber_previous {d : Date} (real : d.OnCalendar) :
    d.previous.dayNumber = d.dayNumber - 1 := by
  obtain ⟨year, month, day⟩ := d
  obtain ⟨months, days⟩ := real
  dsimp only at months days
  unfold previous
  split
  next inside => simp only [dayNumber] at inside ⊢; omega
  next first =>
    dsimp only at first
    split
    next inside =>
      dsimp only at inside
      obtain ⟨before, rfl⟩ := Nat.exists_eq_add_of_le' months.1
      have behind := daysBeforeMonth_succ year (show 1 ≤ before by omega)
      simp only [dayNumber, Nat.add_sub_cancel]
      omega
    next inside =>
      dsimp only at inside
      have january : month = 1 := by omega
      have behind := daysBeforeYear_succ (year - 1)
      have whole := daysBeforeMonth_thirteen (year - 1)
      rw [daysBeforeMonth_succ _ (by decide)] at whole
      rw [Int.sub_add_cancel] at behind
      have december : daysInMonth (year - 1) 12 = 31 := rfl
      simp only [dayNumber, january, daysBeforeMonth] at whole ⊢
      split at whole <;> simp_all <;> omega

end Date

namespace DateTime

/-! ## Instants -/

/-- A time of the calendar.  A leap second is none. -/
structure OnCalendar (t : DateTime) : Prop where
  date : t.date.OnCalendar
  hour : t.hour ≤ 23
  minute : t.minute ≤ 59
  second : t.second ≤ 59
  nanosecond : t.nanosecond < 1000000000

/-- The minutes of an instant. -/
def minuteNumber (t : DateTime) : Int :=
  t.date.dayNumber * 1440 + t.hour * 60 + t.minute

/-- A time as nanoseconds. -/
def instant (t : DateTime) : Int :=
  (t.minuteNumber * 60 + t.second) * 1000000000 + t.nanosecond

/-- Two times of the calendar are never the same instant. -/
theorem eq_of_instant_eq {t u : DateTime} (first : t.OnCalendar) (second : u.OnCalendar)
    (same : t.instant = u.instant) : t = u := by
  obtain ⟨date, hours, minutes, seconds, nanoseconds⟩ := first
  obtain ⟨date', hours', minutes', seconds', nanoseconds'⟩ := second
  rw [instant, instant] at same
  have nanosecond : t.nanosecond = u.nanosecond := by omega
  have seconds : t.second = u.second := by omega
  have whole : t.minuteNumber = u.minuteNumber := by omega
  rw [minuteNumber, minuteNumber] at whole
  have minute : t.minute = u.minute := by omega
  have hour : t.hour = u.hour := by omega
  have day : t.date = u.date := Date.eq_of_dayNumber_eq date date' (by omega)
  obtain ⟨⟩ := t
  obtain ⟨⟩ := u
  simp_all only

variable {t : DateTime} {minutes : Int}

theorem minuteNumber_minusMinutes (date : t.date.OnCalendar) (hour : t.hour ≤ 23)
    (minute : t.minute ≤ 59) (short : -1440 < minutes ∧ minutes < 1440) :
    (t.minusMinutes minutes).minuteNumber = t.minuteNumber - minutes := by
  have after := Date.dayNumber_next date
  have before := Date.dayNumber_previous date
  simp only [minusMinutes, minuteNumber]
  split
  next => omega
  next => split <;> omega

theorem instant_minusMinutes (real : t.OnCalendar) (short : -1440 < minutes ∧ minutes < 1440) :
    (t.minusMinutes minutes).instant = t.instant - minutes * 60 * 1000000000 := by
  have moved := minuteNumber_minusMinutes real.date real.hour real.minute short
  have second : (t.minusMinutes minutes).second = t.second := rfl
  have nanosecond : (t.minusMinutes minutes).nanosecond = t.nanosecond := rfl
  rw [instant, instant, moved, second, nanosecond]
  omega

theorem date_minusMinutes (date : t.date.OnCalendar) (minutes : Int) :
    (t.minusMinutes minutes).date.OnCalendar := by
  simp only [minusMinutes]
  split
  next => exact Date.onCalendar_previous date
  next =>
    split
    next => exact date
    next => exact Date.onCalendar_next date

theorem clock_minusMinutes (t : DateTime) (minutes : Int) :
    (t.minusMinutes minutes).hour ≤ 23 ∧ (t.minusMinutes minutes).minute ≤ 59 := by
  simp only [minusMinutes]
  omega

theorem onCalendar_minusMinutes (real : t.OnCalendar) (minutes : Int) :
    (t.minusMinutes minutes).OnCalendar :=
  have clock := clock_minusMinutes t minutes
  ⟨date_minusMinutes real.date minutes, clock.1, clock.2, real.second, real.nanosecond⟩

theorem year_minusMinutes (t : DateTime) (minutes : Int) :
    t.date.year - 1 ≤ (t.minusMinutes minutes).date.year := by
  have before : t.date.year - 1 ≤ t.date.previous.year := by
    unfold Date.previous
    split
    next => dsimp only; omega
    next => split <;> dsimp only <;> omega
  have after : t.date.year ≤ t.date.next.year := by
    unfold Date.next
    split
    next => dsimp only; omega
    next => split <;> dsimp only <;> omega
  simp only [minusMinutes]
  split
  next => exact before
  next => split <;> omega

/-- Without an offset a time stays. -/
theorem minusMinutes_zero (hour : t.hour ≤ 23) (minute : t.minute ≤ 59) :
    t.minusMinutes 0 = t := by
  have total : 0 ≤ (t.hour * 60 + t.minute - 0 : Int) ∧ (t.hour * 60 + t.minute - 0 : Int) < 1440 := by
    omega
  have ofDay : ((t.hour * 60 + t.minute - 0 : Int) % 1440).toNat = t.hour * 60 + t.minute := by
    omega
  obtain ⟨date, hours, minutes, seconds, nanoseconds⟩ := t
  simp only [minusMinutes, ofDay, if_neg (Int.not_lt.mpr total.1), if_pos total.2,
    DateTime.mk.injEq, true_and, and_true]
  dsimp only at minute
  omega

end DateTime

end LearningStore.Value
