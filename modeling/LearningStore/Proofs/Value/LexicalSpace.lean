import LearningStore.Proofs.Value.Instant

/-!
# The lexical space of dates

XML Schema fixes the texts of `xs:dateTime` and `xs:date`.  The reader takes more: fields with fewer
digits or blanks in front, a plus sign, other marks and signs, longer offsets and leap seconds.  An
accepted text is in the lexical space, and gives a constant that is plain, just when it has none of
these.
-/

namespace LearningStore.Value

open LearningStore.Text
open DateTime

/-- Four digits or more, without zeros in front of more than four, and a minus sign or none. -/
def LexicalYear (field : List Char) : Prop :=
  ∃ digits, (field = digits ∨ field = '-' :: digits) ∧ Digits digits ∧ 4 ≤ digits.length ∧
    (4 < digits.length → digits.head? ≠ some '0')

/-- No zone, the letter Z, or an offset of at most 14 hours. -/
def LexicalZone (zone : List Char) : Prop :=
  zone = [] ∨ zone = ['Z'] ∨ IsOffset ['+', '-'] 840 zone

namespace Written

/-- What XML Schema asks of a date with a time of day, and of a date alone. -/
structure Lexical (w : Written) : Prop where
  fields : w.Holds LexicalYear (Width 2)
  mark : ∀ c ∈ w.clock, c.mark = 'T'
  zone : LexicalZone w.zone
  date : w.face.date.OnCalendar
  time : w.face.hour ≤ 23 ∧ w.face.minute ≤ 59 ∧ w.face.second ≤ 59 ∨
    w.face.hour = 24 ∧ w.face.minute = 0 ∧ w.face.second = 0 ∧
      ∀ c ∈ w.clock, ∀ d ∈ c.fraction.drop 1, d = '0'

end Written

/-- The lexical space of `xs:dateTime` and `xs:date`. -/
def InLexicalSpace (s : List Char) : Prop :=
  ∃ w : Written, w.chars = s ∧ w.Lexical

/-- A constant of a time of the calendar in a year of four digits. -/
def PlainConstant (constant : List Char) : Prop :=
  ∃ t : DateTime, t.OnCalendar ∧ Shows t constant

namespace Written

/-- A year of four digits. -/
def StrictYear (field : List Char) : Prop :=
  Width 4 field ∨ field = ['-', '0', '0', '0', '0']

/-- An accepted written date that makes no use of the reader's leniency, and whose year in UTC has
four digits. -/
structure Strict (w : Written) : Prop where
  fields : w.Holds StrictYear (Width 2)
  mark : ∀ c ∈ w.clock, c.mark = 'T'
  zone : w.zone ≠ ['z'] ∧ w.zone.head? ≠ some '\u2212' ∧ -840 ≤ zoneMinutes w.zone ∧
    zoneMinutes w.zone ≤ 840
  second : w.face.second ≤ 59
  year : 0 ≤ w.value.date.year ∧ w.value.date.year ≤ 9999

/-! ## Texts -/

theorem Lexical.formed {w : Written} (lexical : w.Lexical) : w.Formed where
  fields := by
    refine lexical.fields.mono (fun s is => ?_) fun _ => Width.numeral
    obtain ⟨digits, spelled, each, long, -⟩ := is
    have nonempty : digits ≠ [] := List.ne_nil_of_length_pos (by omega)
    rcases spelled with rfl | rfl
    · exact ⟨[], _, rfl, nofun, nonempty, each⟩
    · exact ⟨['-'], _, rfl, List.forall_mem_singleton.mpr rfl, nonempty, each⟩
  mark c inside := .inl (lexical.mark c inside)
  zone := by
    rcases lexical.zone with zone | zone | ⟨sign, hour, minute, zone, signs, -⟩
    · exact zone_begins (.inl zone)
    · exact zone_begins (.inr (.inl zone))
    · rw [zone]
      rintro _ ⟨⟩
      rcases List.mem_pair.mp signs with rfl | rfl <;> decide

/-- A text that is read is in the lexical space just when its fields are. -/
theorem Accepted.inLexicalSpace_iff {w : Written} (accepted : w.Accepted) :
    InLexicalSpace w.chars ↔ w.Lexical := by
  constructor
  · rintro ⟨v, same, lexical⟩
    exact eq_of_chars_eq lexical.formed accepted.formed same ▸ lexical
  · exact fun lexical => ⟨w, rfl, lexical⟩

theorem zero_of_numberOfDigits {digits : List Char} (each : Digits digits)
    (zero : numberOfDigits digits = 0) : digits = List.replicate digits.length '0' := by
  induction digits using List.reverseRecOn with
  | nil => rfl
  | append_singleton front c ih =>
      obtain ⟨before, last⟩ := List.forall_mem_append.mp each
      rw [numberOfDigits_concat] at zero
      have digit : isDigit c = true := last c (List.mem_singleton.mpr rfl)
      have value : c.toNat = 48 := by
        obtain ⟨low, -⟩ := Bool.and_eq_true_iff.mp digit
        have bound : 48 ≤ c.toNat := of_decide_eq_true low
        unfold digitValue at zero
        omega
      have same : c = '0' := Char.toNat_inj.mp value
      rw [List.length_append, List.length_singleton, List.replicate_succ', ← ih before (by omega),
        same]

theorem StrictYear.lexical {field : List Char} (strict : StrictYear field) : LexicalYear field := by
  rcases strict with ⟨wide, each⟩ | rfl
  · exact ⟨field, .inl rfl, each, wide.ge, fun long => by omega⟩
  · exact ⟨['0', '0', '0', '0'], .inr rfl, by decide, by decide, by decide⟩

/-- A year that the reader takes as no negative one has four digits if it is lexical. -/
theorem strictYear_of_lexical {field : List Char} (is : Year field) (lexical : LexicalYear field)
    (nonnegative : 0 ≤ yearNumber field) : StrictYear field := by
  obtain ⟨digits, rfl | rfl, each, long, unfilled⟩ := lexical
  · obtain ⟨blanks, sign, rest, rfl, before, -, -, kind⟩ := is
    obtain ⟨inBlanks, signed⟩ := List.forall_mem_append.mp each
    have inSign := (List.forall_mem_append.mp signed).1
    have unblanked : blanks = [] := List.eq_nil_iff_forall_not_mem.mpr fun c inside =>
      absurd (inBlanks c inside) (ne_true_of_eq_false (not_isDigit_of_isBlank (before c inside)))
    rcases kind with ⟨rfl, short⟩ | rfl | rfl
    · subst unblanked
      exact .inl ⟨Nat.le_antisymm short long, each⟩
    · exact absurd (inSign '-' List.mem_cons_self) (by decide)
    · exact absurd (inSign '+' List.mem_cons_self) (by decide)
  · have value : yearNumber ([] ++ (['-'] ++ digits)) = -(numberOfDigits digits : Int) :=
      yearNumber_eq nofun each (.inr (.inl rfl))
    rw [List.nil_append, List.singleton_append] at value
    have zeros := zero_of_numberOfDigits each (by omega)
    have four : digits.length = 4 := by
      by_contra other
      refine unfilled (by omega) ?_
      rw [zeros, List.head?_replicate, if_neg (by omega)]
    rw [four] at zeros
    exact .inr (congrArg _ zeros)

theorem Accepted.year {w : Written} (accepted : w.Accepted) : Year w.year := by
  rcases accepted.written with full | loose
  · exact full.fields.year.year
  · exact loose.fields.year

theorem Accepted.date {w : Written} (accepted : w.Accepted) : w.face.date.OnCalendar := by
  have real := accepted.real
  simp only [isReal, Date.isReal, Bool.and_eq_true, decide_eq_true_eq] at real
  obtain ⟨⟨⟨⟨⟨⟨⟨-, first⟩, last⟩, low⟩, high⟩, -⟩, -⟩, -⟩ := real
  exact ⟨⟨first, last⟩, ⟨low, high⟩⟩

theorem Accepted.time {w : Written} (accepted : w.Accepted) :
    w.face.hour ≤ 23 ∧ w.face.minute ≤ 59 ∧ w.face.second ≤ 60 := by
  have real := accepted.real
  simp only [isReal, Bool.and_eq_true, decide_eq_true_eq] at real
  exact ⟨real.1.1.2, real.1.2, real.2⟩

theorem Accepted.nanosecond {w : Written} (accepted : w.Accepted) :
    w.face.nanosecond < 1000000000 := by
  unfold face
  split
  next => exact Nat.zero_lt_succ _
  next c clock => exact nanoseconds_lt (accepted.formed.fields.clock c clock).fraction

/-- The offsets that are accepted and make no use of the reader's leniency are lexical. -/
theorem isOffset_of_plain {zone : List Char}
    (offset : IsOffset ['+', '-', '\u2212'] 1439 zone) (ascii : zone.head? ≠ some '\u2212')
    (low : -840 ≤ zoneMinutes zone) (high : zoneMinutes zone ≤ 840) :
    IsOffset ['+', '-'] 840 zone := by
  obtain ⟨sign, hour, minute, rfl, signs, wide, wide', least, -⟩ := offset
  refine ⟨sign, hour, minute, rfl, ?_, wide, wide', least, ?_⟩
  · rcases List.mem_append.mp (show sign ∈ ['+', '-'] ++ ['\u2212'] from signs) with plain | minus
    · exact plain
    · exact absurd (congrArg some (List.mem_singleton.mp minus)) ascii
  · obtain ⟨a, b, rfl⟩ := List.length_eq_two.mp wide.1
    simp only [List.cons_append, List.nil_append, zoneMinutes] at low high
    split at low
    next plus =>
      rw [if_pos plus] at high
      omega
    next minus => omega

/-- A lexical zone is written in ASCII, with a capital letter if with one. -/
theorem plain_of_lexicalZone {zone : List Char} (lexical : LexicalZone zone) :
    zone ≠ ['z'] ∧ zone.head? ≠ some '\u2212' ∧ -840 ≤ zoneMinutes zone ∧
      zoneMinutes zone ≤ 840 := by
  rcases lexical with rfl | rfl | offset
  · decide
  · decide
  · have bounds := zoneMinutes_le offset
    obtain ⟨sign, hour, minute, rfl, signs, -⟩ := offset
    refine ⟨?_, ?_, bounds⟩
    · intro letter
      obtain ⟨rfl, -⟩ := List.cons_eq_cons.mp letter
      exact absurd signs (by decide)
    · rintro ⟨⟩
      exact absurd signs (by decide)

theorem Accepted.lexicalZone {w : Written} (accepted : w.Accepted) (small : w.zone ≠ ['z'])
    (ascii : w.zone.head? ≠ some '\u2212') (low : -840 ≤ zoneMinutes w.zone)
    (high : zoneMinutes w.zone ≤ 840) : LexicalZone w.zone := by
  rcases accepted.written with full | loose
  · rcases full.zone with zone | zone | offset
    · exact .inr (.inl zone)
    · exact absurd zone small
    · exact .inr (.inr (isOffset_of_plain offset ascii low high))
  · exact loose.zone.imp_right .inl

/-- A date in fields of fixed width has a year of four digits, and no other date moves to another
year in UTC. -/
theorem Accepted.strictYear {w : Written} (accepted : w.Accepted) (lexical : LexicalYear w.year)
    (nonnegative : 0 ≤ w.value.date.year) : StrictYear w.year := by
  rcases accepted.written with full | loose
  · exact .inl full.fields.year
  · rw [loose.value_eq accepted.real, date_face] at nonnegative
    exact strictYear_of_lexical accepted.year lexical nonnegative

/-- An accepted date is lexical and plain just when it makes no use of the reader's leniency. -/
theorem Accepted.strict_iff {w : Written} (accepted : w.Accepted) :
    w.Strict ↔ w.Lexical ∧ w.face.second ≤ 59 ∧ 0 ≤ w.value.date.year ∧
      w.value.date.year ≤ 9999 := by
  constructor
  · rintro ⟨fields, mark, ⟨small, ascii, low, high⟩, second, year⟩
    have lexical : w.Lexical :=
      { fields := fields.mono (fun _ => StrictYear.lexical) fun _ => id
        mark := mark
        zone := accepted.lexicalZone small ascii low high
        date := accepted.date
        time := .inl ⟨accepted.time.1, accepted.time.2.1, second⟩ }
    exact ⟨lexical, second, year⟩
  · rintro ⟨lexical, second, year⟩
    have fields : w.Holds StrictYear (Width 2) :=
      ⟨accepted.strictYear lexical.fields.year year.1, lexical.fields.month, lexical.fields.day,
        lexical.fields.clock⟩
    exact ⟨fields, lexical.mark, plain_of_lexicalZone lexical.zone, second, year⟩

/-! ## Constants -/

theorem notMem_of_width {count : Nat} {digits rest : List Char} {c : Char}
    (width : Width (count + 1) digits) (other : isDigit c = false) {tail : List Char} :
    digits ++ rest ≠ c :: tail := by
  obtain ⟨d, ds, rfl⟩ := List.exists_cons_of_length_eq_add_one width.1
  rintro ⟨⟩
  rw [width.2 c List.mem_cons_self] at other
  cases other

/-- What a constant shows of its year and second is fixed by the constant. -/
theorem second_eq_of_shows {t u : DateTime} {constant : List Char} (first : Shows t constant)
    (second : Shows u constant) : t.second = u.second := by
  obtain ⟨y, mo, d, h, mi, s, ms, rfl, ⟨-, yw, -⟩, ⟨mow, -⟩, ⟨dw, -⟩, ⟨hw, -⟩, ⟨miw, -⟩,
    ⟨sw, shown⟩, -⟩ := first
  obtain ⟨y', mo', d', h', mi', s', ms', same, ⟨-, yw', -⟩, ⟨mow', -⟩, ⟨dw', -⟩, ⟨hw', -⟩,
    ⟨miw', -⟩, ⟨sw', shown'⟩, -⟩ := second
  have marks : isDigit '-' = false ∧ isDigit ' ' = false ∧ isDigit ':' = false ∧
      isDigit '.' = false := by decide
  obtain ⟨hyphen, blank, colon, point⟩ := marks
  have same := List.append_cancel_left same
  obtain ⟨-, same⟩ := field_cons_inj yw.numeral yw'.numeral hyphen hyphen same
  obtain ⟨-, same⟩ := field_cons_inj mow.numeral mow'.numeral hyphen hyphen same
  obtain ⟨-, same⟩ := field_cons_inj dw.numeral dw'.numeral blank blank same
  obtain ⟨-, same⟩ := field_cons_inj hw.numeral hw'.numeral colon colon same
  obtain ⟨-, same⟩ := field_cons_inj miw.numeral miw'.numeral colon colon same
  obtain ⟨seconds, -⟩ := field_cons_inj sw.numeral sw'.numeral point point same
  rw [← shown, ← shown', seconds]

/-- Only a year of four digits is shown without a sign. -/
theorem year_of_shows {t u : DateTime} (shows' : Shows u (Literal.dateTime t).sqlConstant.toList) :
    0 ≤ t.date.year ∧ t.date.year ≤ 9999 := by
  obtain ⟨year, month, day, hour, minute, second, millisecond, same, ⟨-, wide, -⟩, -⟩ := shows'
  rw [toList_sqlConstant_dateTime] at same
  have same := List.append_cancel_left same
  unfold yearText at same
  split at same
  next => exact absurd same.symm (notMem_of_width wide (by decide))
  next nonnegative =>
    split at same
    next short => exact ⟨Int.not_lt.mp nonnegative, short⟩
    next => exact absurd same.symm (notMem_of_width wide (by decide))

theorem Accepted.plainConstant_iff {w : Written} (accepted : w.Accepted) :
    PlainConstant (Literal.dateTime w.value).sqlConstant.toList ↔
      w.face.second ≤ 59 ∧ 0 ≤ w.value.date.year ∧ w.value.date.year ≤ 9999 := by
  have date : w.value.date.OnCalendar := date_minusMinutes accepted.date _
  have clock : w.value.hour ≤ 23 ∧ w.value.minute ≤ 59 := clock_minusMinutes w.face _
  have second : w.value.second = w.face.second := rfl
  constructor
  · rintro ⟨t, real, constant⟩
    have year := year_of_shows constant
    have shown : Shows w.value (Literal.dateTime w.value).sqlConstant.toList :=
      shows_sqlConstant year date.month.2 (date.day.2.trans (Date.daysInMonth_le ..)) clock.1
        clock.2 accepted.time.2.2 accepted.nanosecond
    rw [← second, second_eq_of_shows shown constant]
    exact ⟨real.second, year⟩
  · rintro ⟨regular, year⟩
    have real : w.value.OnCalendar := ⟨date, clock.1, clock.2, regular, accepted.nanosecond⟩
    exact ⟨w.value, real, real.shows year⟩

/-! ## Literals -/

theorem read_dateTime_eq_ok_iff {text : String} {l : Literal} :
    Literal.read .dateTime text = .ok l ↔
      ∃ t, read? (trim text.toList) = some t ∧ l = .dateTime t := by
  rw [Literal.read]
  cases read? (trim text.toList) with
  | none => simp
  | some t => simp [eq_comm]

/-- A text is read as a date just when it spells an accepted one.  The text is in the lexical space
and the constant is plain just when that one makes no use of the reader's leniency. -/
theorem lexical_of_read {text : String} {l : Literal} :
    Literal.read .dateTime text = .ok l ↔
      ∃ w : Written, w.chars = trim text.toList ∧ w.Accepted ∧ l = .dateTime w.value ∧
        (InLexicalSpace (trim text.toList) ∧ PlainConstant l.sqlConstant.toList ↔ w.Strict) := by
  rw [read_dateTime_eq_ok_iff]
  constructor
  · rintro ⟨t, read, rfl⟩
    obtain ⟨w, spelled, accepted, rfl⟩ := read?_eq_some_iff.mp read
    refine ⟨w, spelled, accepted, rfl, ?_⟩
    rw [← spelled, accepted.inLexicalSpace_iff, accepted.plainConstant_iff, accepted.strict_iff]
  · rintro ⟨w, spelled, accepted, rfl, -⟩
    exact ⟨w.value, read?_eq_some_iff.mpr ⟨w, spelled, accepted, rfl⟩, rfl⟩

/-- A date in fields of one digit is read, which is not in the lexical space, and a leap second,
which no plain constant shows. -/
theorem lenient_sample :
    (∃ l, Literal.read .dateTime "2006-1-2" = .ok l ∧
      ¬ InLexicalSpace (trim "2006-1-2".toList)) ∧
    ∃ l, Literal.read .dateTime "2006-01-02T23:59:60" = .ok l ∧
      ¬ PlainConstant l.sqlConstant.toList := by
  constructor
  · let w : Written := ⟨['2', '0', '0', '6'], ['1'], ['2'], none, []⟩
    have digit {d : Char} (is : isDigit d = true) : Field [d] :=
      ⟨[], [d], rfl, nofun, nofun, Nat.le_succ 1, by simpa [Digits] using is⟩
    have fields : w.Holds Year Field :=
      ⟨Width.year (by decide), digit (by decide), digit (by decide), nofun⟩
    have accepted : w.Accepted := ⟨.inr ⟨fields, nofun, .inl rfl⟩, by decide⟩
    have spelled : w.chars = trim "2006-1-2".toList := by decide
    refine ⟨_, read_dateTime_eq_ok_iff.mpr ⟨_, spelled ▸ read?_chars accepted, rfl⟩, ?_⟩
    rw [← spelled, accepted.inLexicalSpace_iff]
    exact fun lexical => absurd lexical.fields.month.1 (by decide)
  · let c : Clock := ⟨'T', ['2', '3'], ['5', '9'], ['6', '0'], []⟩
    let w : Written := ⟨['2', '0', '0', '6'], ['0', '1'], ['0', '2'], some c, []⟩
    have clock : ∀ c ∈ w.clock, c.Holds Field ∧ c.mark = 'T' := by
      rintro _ ⟨⟩
      exact ⟨⟨Width.field (by decide), Width.field (by decide), Width.field (by decide), .inl rfl⟩,
        rfl⟩
    have fields : w.Holds Year Field :=
      ⟨Width.year (by decide), Width.field (by decide), Width.field (by decide),
        fun c inside => (clock c inside).1⟩
    have mark : ∀ c ∈ w.clock, c.mark = 'T' := fun c inside => (clock c inside).2
    have accepted : w.Accepted := ⟨.inr ⟨fields, mark, .inl rfl⟩, by decide⟩
    have spelled : w.chars = trim "2006-01-02T23:59:60".toList := by decide
    refine ⟨_, read_dateTime_eq_ok_iff.mpr ⟨_, spelled ▸ read?_chars accepted, rfl⟩, ?_⟩
    rw [accepted.plainConstant_iff]
    exact fun plain => absurd plain.1 (by decide)

end Written

end LearningStore.Value
