import LearningStore.Text.Blank
import LearningStore.Value.Calendar

/-!
# Reading dates and times

Three notations are tried in turn: a full date and time with an offset from UTC,
which is converted to UTC; a date and time without one, in which fields may have
fewer digits; and a date alone, which means its midnight.
-/

namespace LearningStore.Value.DateTime

open LearningStore.Text

/-- Drop an expected character. -/
def skip? (c : Char) : List Char → Option (List Char)
  | [] => none
  | d :: rest => if d = c then some rest else none

/-- A number of exactly so many digits. -/
def exactly? (count : Nat) (s : List Char) : Option (Nat × List Char) :=
  let digits := s.take count
  if digits.length = count ∧ digits.all isDigit then
    some (numberOfDigits digits, s.drop count)
  else none

/-- A number of at least one digit and as many more as there are, up to a limit. -/
def atMost? (limit : Nat) (s : List Char) : Option (Nat × List Char) :=
  let digits := (s.take limit).takeWhile isDigit
  if digits.isEmpty then none else some (numberOfDigits digits, s.drop digits.length)

/-- The digits after a point as nanoseconds; those past the ninth are dropped.  A
text without a point has none. -/
def fraction? : List Char → Option (Nat × List Char)
  | '.' :: rest =>
      let digits := rest.takeWhile isDigit
      if digits.isEmpty then none
      else
        let kept := digits.take 9
        some (numberOfDigits kept * Nat.pow 10 (9 - kept.length), rest.dropWhile isDigit)
  | s => some (0, s)

/-! ## With an offset -/

/-- The minutes of an offset: Z, or a sign, hours, a colon and minutes. -/
def offset? : List Char → Option (Int × List Char)
  | [] => none
  | c :: rest =>
      if c = 'Z' ∨ c = 'z' then some (0, rest)
      else if c = '+' ∨ c = '-' ∨ c = '\u2212' then do
        let (hours, rest) ← exactly? 2 rest
        let rest ← skip? ':' rest
        let (minutes, rest) ← exactly? 2 rest
        if hours ≤ 23 ∧ minutes ≤ 59 then
          let total : Int := hours * 60 + minutes
          some (if c = '+' then total else -total, rest)
        else none
      else none

/-- The mark between a date and a time. -/
def skipMark? : List Char → Option (List Char)
  | [] => none
  | c :: rest => if c = 'T' ∨ c = 't' ∨ c = ' ' then some rest else none

/-- A date and a time with fields of fixed width and an offset, in UTC. -/
def withOffset? (s : List Char) : Option DateTime := do
  let (year, s) ← exactly? 4 s
  let s ← skip? '-' s
  let (month, s) ← exactly? 2 s
  let s ← skip? '-' s
  let (day, s) ← exactly? 2 s
  let s ← skipMark? s
  let (hour, s) ← exactly? 2 s
  let s ← skip? ':' s
  let (minute, s) ← exactly? 2 s
  let s ← skip? ':' s
  let (second, s) ← exactly? 2 s
  let (nanosecond, s) ← fraction? s
  let (offset, s) ← offset? s
  let clock : DateTime := ⟨⟨year, month, day⟩, hour, minute, second, nanosecond⟩
  if s.isEmpty && clock.isReal then some (clock.minusMinutes offset) else none

/-! ## Without an offset -/

/-- A field of one or two digits, after blanks. -/
def field? (s : List Char) : Option (Nat × List Char) :=
  atMost? 2 (trimStart s)

/-- A year after blanks: up to four digits, or any number of them after a sign. -/
def year? (s : List Char) : Option (Int × List Char) :=
  match trimStart s with
  | '-' :: rest => (atMost? rest.length rest).map fun (n, rest) => (-(n : Int), rest)
  | '+' :: rest => (atMost? rest.length rest).map fun (n, rest) => ((n : Int), rest)
  | s => (atMost? 4 s).map fun (n, rest) => ((n : Int), rest)

/-- Year, month and day with hyphens between them. -/
def date? (s : List Char) : Option (Date × List Char) := do
  let (year, s) ← year? s
  let s ← skip? '-' s
  let (month, s) ← field? s
  let s ← skip? '-' s
  let (day, s) ← field? s
  some (⟨year, month, day⟩, s)

/-- A date, the letter T and a time. -/
def withoutOffset? (s : List Char) : Option DateTime := do
  let (date, s) ← date? s
  let s ← skip? 'T' s
  let (hour, s) ← field? s
  let s ← skip? ':' s
  let (minute, s) ← field? s
  let s ← skip? ':' s
  let (second, s) ← field? s
  let (nanosecond, s) ← fraction? s
  let t : DateTime := ⟨date, hour, minute, second, nanosecond⟩
  if s.isEmpty && t.isReal then some t else none

/-- The midnight at which a date begins. -/
def midnight? (s : List Char) : Option DateTime := do
  let (date, s) ← date? s
  if s.isEmpty && date.isReal then some ⟨date, 0, 0, 0, 0⟩ else none

/-- A text without one Z at its end. -/
def dropFinalZ (s : List Char) : List Char :=
  if s.getLast? = some 'Z' then s.dropLast else s

/-- The date and time, in UTC, that a text denotes. -/
def read? (s : List Char) : Option DateTime :=
  let unmarked := dropFinalZ s
  (withOffset? s).orElse fun _ =>
    (withoutOffset? unmarked).orElse fun _ => midnight? unmarked

end LearningStore.Value.DateTime
