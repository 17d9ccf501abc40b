/-!
# Text for a terminal

A terminal shows some characters of a text and obeys others.  `shown` keeps what is
shown, with tabs, line ends and form feeds.  What is obeyed is left out: the other
controls, and sequences that start with an escape character.  A sequence may be
broken off: a new escape character starts the next one, and the characters Cancel and
Substitute end it.
-/

namespace LearningStore.Text

/-- What a terminal is inside of. -/
inductive Sequence where
  /-- No sequence: characters are shown. -/
  | plain
  /-- Right behind an escape character. -/
  | escape
  /-- Behind an escape character and characters from the blank to the solidus. -/
  | intermediate
  /-- A control sequence, which a character from the at sign on ends. -/
  | control
  /-- A command for the operating system, which a bell ends. -/
  | command
  /-- A text for a device, which no character of its own ends. -/
  | device
deriving DecidableEq, Repr

namespace Sequence

/-- The state behind an escape character and one more character. -/
def opened (c : Char) : Sequence :=
  if c = '[' then control
  else if c = ']' then command
  else if c = 'P' ∨ c = 'X' ∨ c = '^' ∨ c = '_' then device
  else if ' ' ≤ c ∧ c ≤ '/' then intermediate
  else plain

/-- Whether a character is a control, which leaves a sequence as it is. -/
def isControl (c : Char) : Bool :=
  c < ' ' || c == '\x7f'

/-- Cancel and Substitute. -/
def endsAny (c : Char) : Bool :=
  c == '\x18' || c == '\x1a'

/-- The state behind a character that is not shown. -/
def next (s : Sequence) (c : Char) : Sequence :=
  if c = '\x1b' then escape
  else if endsAny c then plain
  else
    match s with
    | plain => plain
    | escape => if isControl c then escape else opened c
    | intermediate => if isControl c || c ≤ '/' then intermediate else plain
    | control => if isControl c || c ≤ '?' then control else plain
    | command => if c = '\x07' then plain else command
    | device => device

/-- Whether the controls that lay out a text are shown, which ends the sequence.
Inside a command or a text for a device they are a part of it. -/
def showsLayout : Sequence → Bool
  | plain | escape | intermediate | control => true
  | command | device => false

end Sequence

/-- The controls that lay out a text. -/
def isLayout (c : Char) : Bool :=
  c == '\t' || c == '\n' || c == '\x0c' || c == '\r'

/-- The characters of a text that are shown, from inside of a sequence on.  A sequence
is made of bytes, and only the first byte of a character beyond ASCII can belong to
it: the others end it and are shown, though they are no characters by themselves. -/
def shownFrom : Sequence → List Char → List Char
  | _, [] => []
  | s, c :: rest =>
      if 1 < c.utf8Size then
        (if s = .plain then [c] else List.replicate (c.utf8Size - 1) '\ufffd') ++
          shownFrom .plain rest
      else if (s = .plain ∧ !Sequence.isControl c) ∨ (s.showsLayout ∧ isLayout c) then
        c :: shownFrom .plain rest
      else shownFrom (s.next c) rest

/-- A text without what a terminal obeys. -/
def shown (text : String) : String :=
  String.ofList (shownFrom .plain text.toList)

end LearningStore.Text
