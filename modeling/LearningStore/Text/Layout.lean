import LearningStore.Text.Lines

/-!
# Laid out text

Generated files are lists of lines, each at an indentation level of four spaces.
An empty line carries no indentation.  `Writer` builds such a list line by line
and keeps the level for the next one.
-/

namespace LearningStore.Text

/-- One written line: its level and the text after the indentation. -/
structure Line where
  level : Nat
  text : String
deriving DecidableEq, Repr

namespace Line

/-- The blanks before a line at a level. -/
def indentation (level : Nat) : String :=
  String.ofList (List.replicate (4 * level) ' ')

/-- The line as it is written, with its line feed. -/
def render (line : Line) : String :=
  if line.text.isEmpty then "\n" else indentation line.level ++ line.text ++ "\n"

end Line

/-- A line at the outermost level. -/
def line (text : String) : Line := ⟨0, text⟩

def blankLine : Line := line ""

/-- Lines a number of levels further in. -/
def indentedBy (levels : Nat) (ls : List Line) : List Line :=
  ls.map fun l => ⟨l.level + levels, l.text⟩

/-- Lines one level further in. -/
def indented (ls : List Line) : List Line :=
  indentedBy 1 ls

/-- The text that a list of lines makes. -/
def renderLines (ls : List Line) : String :=
  String.join (ls.map Line.render)

/-- The lines of a free-form text, trimmed, without blank lines at the ends. -/
def statementLines (text : String) : List Line :=
  (trimmedLines text).map line

/-- The trimmed lines of a text behind a lead; an empty line keeps only the lead
without the blanks at its end. -/
def ledLines (lead text : String) : List Line :=
  (trimmedLines text).map fun l =>
    if l.isEmpty then line (String.ofList (trimEnd lead.toList)) else line (lead ++ l)

/-- The lines written so far and the level of the next one. -/
structure Writer where
  level : Nat := 0
  lines : List Line := []
deriving DecidableEq, Repr

namespace Writer

/-- Append lines at the current level. -/
def append (w : Writer) (ls : List Line) : Writer :=
  ⟨w.level, w.lines ++ indentedBy w.level ls⟩

def line (w : Writer) (text : String) : Writer :=
  w.append [Text.line text]

def blank (w : Writer) : Writer :=
  w.append [blankLine]

def indent (w : Writer) : Writer :=
  ⟨w.level + 1, w.lines⟩

/-- One level further out; the outermost level stays. -/
def dedent (w : Writer) : Writer :=
  ⟨w.level - 1, w.lines⟩

def statements (w : Writer) (text : String) : Writer :=
  w.append (statementLines text)

def ledBy (w : Writer) (lead text : String) : Writer :=
  w.append (ledLines lead text)

/-- Everything written so far. -/
def text (w : Writer) : String :=
  renderLines w.lines

end Writer

end LearningStore.Text
