import LearningStore.Proofs.Text.Reindentation

/-!
# String literals and comments of T-SQL

A scan over a text knows at each character whether it is inside a string literal or a comment.  A
literal stands between apostrophes, and two apostrophes in it denote one.  A comment reaches from
two dashes to the end of the row, or from a slash with a star to a star with a slash; comments of
the second kind nest.  What looks like the start of a literal inside a comment is part of the
comment, and the other way round.
-/

namespace LearningStore.Text

/-! ## The scan -/

/-- Where a scan stands. -/
inductive SqlMode where
  | code
  /-- Behind a dash that may start a comment. -/
  | dash
  /-- Behind a slash that may start a comment. -/
  | slash
  | literal
  /-- Behind an apostrophe in a literal: its end, or the first of two. -/
  | quote
  /-- In a comment up to the end of the row. -/
  | comment
  /-- In a comment inside so many others. -/
  | block (depth : Nat)
  /-- There, behind a star. -/
  | star (depth : Nat)
  /-- There, behind a slash. -/
  | inner (depth : Nat)
deriving DecidableEq, Repr

namespace SqlMode

def inCode : Char → SqlMode
  | '\'' => literal
  | '-' => dash
  | '/' => slash
  | _ => code

def inBlock (depth : Nat) : Char → SqlMode
  | '*' => star depth
  | '/' => inner depth
  | _ => block depth

/-- Where the scan stands one character later. -/
def after : SqlMode → Char → SqlMode
  | code, c => inCode c
  | dash, c => if c = '-' then comment else inCode c
  | slash, c => if c = '*' then block 0 else inCode c
  | literal, c => if c = '\'' then quote else literal
  | quote, c => if c = '\'' then literal else inCode c
  | comment, c => if c = '\n' then code else comment
  | block depth, c => inBlock depth c
  | star 0, c => if c = '/' then code else inBlock 0 c
  | star (depth + 1), c => if c = '/' then block depth else inBlock (depth + 1) c
  | inner depth, c => if c = '*' then block (depth + 1) else inBlock depth c

/-- Where the scan stands behind a text. -/
def run (m : SqlMode) (t : List Char) : SqlMode :=
  t.foldl after m

/-- Where the scan stands at the start of a row that follows. -/
def rested (m : SqlMode) : SqlMode :=
  m.after '\n'

end SqlMode

/-- The contents of the literals that end in a text, where the scan stands at `m` and `held` is
the content so far of the literal there. -/
def literalsFrom : SqlMode → List Char → List Char → List (List Char)
  | .quote, held, [] => [held]
  | _, _, [] => []
  | .literal, held, c :: t =>
      if c = '\'' then literalsFrom .quote held t else literalsFrom .literal (held ++ [c]) t
  | .quote, held, c :: t =>
      if c = '\'' then literalsFrom .literal (held ++ [c]) t
      else held :: literalsFrom (SqlMode.inCode c) [] t
  | m, _, c :: t => literalsFrom (m.after c) [] t

/-- The contents of the string literals of a text, from the first to the last. -/
def literals (t : List Char) : List (List Char) :=
  literalsFrom .code [] t

/-! ## Blanks -/

namespace SqlMode

variable {level : Nat} {m : SqlMode} {w t : List Char} {c : Char}

theorem run_append (m : SqlMode) (a b : List Char) : m.run (a ++ b) = (m.run a).run b :=
  List.foldl_append

theorem inCode_of_isBlank (blank : isBlank c = true) : inCode c = code := by
  unfold inCode
  split
  next => cases blank
  next => cases blank
  next => cases blank
  next => rfl

theorem inBlock_of_isBlank (blank : isBlank c = true) (depth : Nat) :
    inBlock depth c = block depth := by
  unfold inBlock
  split
  next => cases blank
  next => cases blank
  next => rfl

/-- A blank leads where a line feed leads, unless a comment up to the end of the row goes on. -/
theorem after_of_isBlank (blank : isBlank c = true) :
    m.after c = m.rested ∨ m = comment ∧ m.after c = comment := by
  have noQuote := ne_of_isBlank blank (d := '\'') rfl
  have noDash := ne_of_isBlank blank (d := '-') rfl
  have noStar := ne_of_isBlank blank (d := '*') rfl
  have noSlash := ne_of_isBlank blank (d := '/') rfl
  cases m with
  | comment =>
      by_cases feed : c = '\n'
      · exact .inl (by rw [feed]; rfl)
      · exact .inr ⟨rfl, if_neg feed⟩
  | star depth =>
      cases depth <;>
        simp [after, rested, noSlash, inBlock_of_isBlank blank, inBlock_of_isBlank (c := '\n') rfl]
  | _ =>
      simp [after, rested, noQuote, noDash, noStar, inCode_of_isBlank blank,
        inBlock_of_isBlank blank, inCode_of_isBlank (c := '\n') rfl,
        inBlock_of_isBlank (c := '\n') rfl]

theorem rested_rested (m : SqlMode) : m.rested.rested = m.rested := by
  cases m with
  | star depth => cases depth <;> rfl
  | _ => rfl

theorem rested_after (blank : isBlank c = true) : (m.after c).rested = m.rested := by
  rcases after_of_isBlank (m := m) blank with same | ⟨rfl, same⟩
  · rw [same, rested_rested]
  · rw [same]

theorem rested_run (blank : Blanks w) : (m.run w).rested = m.rested := by
  induction w generalizing m with
  | nil => rfl
  | cons c w ih =>
      obtain ⟨here, later⟩ := List.forall_mem_cons.mp blank
      exact (ih later).trans (rested_after here)

/-- At the start of a row blanks change nothing. -/
theorem run_rested (blank : Blanks w) : m.rested.run w = m.rested := by
  induction w with
  | nil => rfl
  | cons c w ih =>
      obtain ⟨here, later⟩ := List.forall_mem_cons.mp blank
      have kept : m.rested.after c = m.rested := by
        rcases after_of_isBlank (m := m.rested) here with same | ⟨comment, -⟩
        · rw [same, rested_rested]
        · cases m with
          | star depth => cases depth <;> cases comment
          | _ => cases comment
      rw [run, List.foldl_cons, kept]
      exact ih later

/-- Blanks with a line feed in them lead to the start of a row. -/
theorem run_of_feed (blank : Blanks w) (feed : '\n' ∈ w) : m.run w = m.rested := by
  obtain ⟨a, b, rfl⟩ := List.append_of_mem feed
  obtain ⟨front, back⟩ := blanks_append.mp blank
  rw [run_append]
  have row : (m.run a).run ('\n' :: b) = (m.run a).rested.run b := rfl
  rw [row, run_rested (List.forall_mem_cons.mp back).2, rested_run front]

theorem run_gap (blank : Blanks w) : m.run (gap level w) = m.run w := by
  by_cases feed : '\n' ∈ w
  · rw [run_of_feed (blanks_gap blank) (feed_mem_gap.mpr feed), run_of_feed blank feed]
  · rw [gap_of_notMem feed]

theorem run_relaidBehind (blank : Blanks w) :
    m.run (relaidBehind level w t) = m.run (w ++ t) := by
  induction t generalizing m w with
  | nil => rw [relaidBehind, run_gap blank, List.append_nil]
  | cons c t ih =>
      unfold relaidBehind
      split
      next here =>
        rw [ih (blanks_append.mpr ⟨blank, List.forall_mem_singleton.mpr here⟩), List.append_assoc]
        rfl
      next =>
        rw [run_append, run_gap blank, run_append]
        exact ih (m := (m.run w).after c) (List.forall_mem_nil _)

/-- A scan stands at the same place behind a text and behind the relaid text. -/
theorem run_relaid (m : SqlMode) (t : List Char) : m.run (relaid level t) = m.run t :=
  run_relaidBehind (w := []) nofun

/-- No literal is open. -/
structure Plain (m : SqlMode) : Prop where
  noLiteral : m ≠ literal
  noQuote : m ≠ quote

theorem plain_code : Plain code :=
  ⟨nofun, nofun⟩

theorem eq_or_plain (m : SqlMode) : m = literal ∨ m = quote ∨ m.Plain := by
  cases m with
  | literal => exact .inl rfl
  | quote => exact .inr (.inl rfl)
  | _ => exact .inr (.inr ⟨nofun, nofun⟩)

theorem Plain.after (plain : Plain m) (blank : isBlank c = true) : Plain (m.after c) := by
  rcases after_of_isBlank (m := m) blank with same | ⟨-, same⟩
  · rw [same]
    cases m with
    | literal => exact absurd rfl plain.noLiteral
    | quote => exact absurd rfl plain.noQuote
    | star depth => cases depth <;> exact ⟨nofun, nofun⟩
    | _ => exact ⟨nofun, nofun⟩
  · rw [same]
    exact ⟨nofun, nofun⟩

theorem Plain.run (plain : Plain m) (blank : Blanks w) : Plain (m.run w) := by
  induction w generalizing m with
  | nil => exact plain
  | cons c w ih =>
      obtain ⟨here, later⟩ := List.forall_mem_cons.mp blank
      exact ih (plain.after here) later

end SqlMode

/-! ## Literals in relaid text -/

section Literals

variable {level : Nat} {m : SqlMode} {held w t : List Char} {c : Char}

theorem literalsFrom_nil_of_plain (plain : m.Plain) : literalsFrom m held [] = [] := by
  cases m with
  | quote => exact absurd rfl plain.noQuote
  | _ => rfl

theorem literalsFrom_plain (plain : m.Plain) (held : List Char) :
    literalsFrom m held t = literalsFrom m [] t := by
  cases m with
  | literal => exact absurd rfl plain.noLiteral
  | quote => exact absurd rfl plain.noQuote
  | _ => cases t <;> rfl

theorem literalsFrom_plain_cons (plain : m.Plain) :
    literalsFrom m held (c :: t) = literalsFrom (m.after c) [] t := by
  cases m with
  | literal => exact absurd rfl plain.noLiteral
  | quote => exact absurd rfl plain.noQuote
  | _ => rfl

theorem literalsFrom_plain_blanks (plain : m.Plain) (blank : Blanks w) :
    literalsFrom m [] (w ++ t) = literalsFrom (m.run w) [] t := by
  induction w generalizing m with
  | nil => rfl
  | cons c w ih =>
      obtain ⟨here, later⟩ := List.forall_mem_cons.mp blank
      rw [List.cons_append, literalsFrom_plain_cons plain, ih (plain.after here) later]
      rfl

theorem literalsFrom_code_blanks (blank : Blanks w) :
    literalsFrom .code [] (w ++ t) = literalsFrom .code [] t := by
  rw [literalsFrom_plain_blanks SqlMode.plain_code blank]
  exact congrArg (literalsFrom · [] t) (SqlMode.run_rested (m := .code) blank)

theorem literalsFrom_literal_blanks (blank : Blanks w) :
    literalsFrom .literal held (w ++ t) = literalsFrom .literal (held ++ w) t := by
  induction w generalizing held with
  | nil => rw [List.nil_append, List.append_nil]
  | cons c w ih =>
      obtain ⟨here, later⟩ := List.forall_mem_cons.mp blank
      rw [List.cons_append, literalsFrom, if_neg (ne_of_isBlank here rfl), ih later,
        List.append_assoc]
      rfl

/-- A blank behind an apostrophe ends the literal. -/
theorem literalsFrom_quote_blanks (blank : Blanks w) (nonempty : w ≠ []) :
    literalsFrom .quote held (w ++ t) = held :: literalsFrom .code [] t := by
  obtain ⟨c, w, rfl⟩ := List.exists_cons_of_ne_nil nonempty
  obtain ⟨here, later⟩ := List.forall_mem_cons.mp blank
  rw [List.cons_append, literalsFrom, if_neg (ne_of_isBlank here rfl),
    SqlMode.inCode_of_isBlank here, literalsFrom_code_blanks later]

/-- Blanks at the end of a text end a literal, as the end of the text does. -/
theorem literalsFrom_of_blanks (blank : Blanks w) :
    literalsFrom m held w = literalsFrom m held [] := by
  rw [← List.append_nil w]
  rcases m.eq_or_plain with rfl | rfl | plain
  · rw [literalsFrom_literal_blanks blank]
    rfl
  · cases w with
    | nil => rfl
    | cons c w => rw [literalsFrom_quote_blanks blank (List.cons_ne_nil c w)]; rfl
  · rw [literalsFrom_plain plain held, literalsFrom_plain_blanks plain blank,
      literalsFrom_nil_of_plain (plain.run blank), literalsFrom_nil_of_plain plain]

theorem literalsFrom_append_blanks (blank : Blanks w) :
    literalsFrom m held (t ++ w) = literalsFrom m held t := by
  induction t generalizing m held with
  | nil => exact literalsFrom_of_blanks blank
  | cons c t ih =>
      rcases m.eq_or_plain with rfl | rfl | plain
      · simp only [List.cons_append, literalsFrom, ih]
      · simp only [List.cons_append, literalsFrom, ih]
      · rw [List.cons_append, literalsFrom_plain_cons plain, literalsFrom_plain_cons plain, ih]

/-- Blanks around a text hold no literals and change none. -/
theorem literals_trim (t : List Char) : literals (trim t) = literals t := by
  obtain ⟨a, b, whole, front, back⟩ := exists_trim t
  rw [literals, literals, whole, literalsFrom_append_blanks back, literalsFrom_code_blanks front,
    ← whole]

/-- The character behind a stretch of blanks is read alike. -/
theorem literalsFrom_relaid_cons (solid : isBlank c = false)
    (behind : ∀ m held, (m = .literal → ∀ d ∈ held.getLast?, isBlank d = false) →
      literalsFrom m (relaid level held) (relaid level t) =
        (literalsFrom m held t).map (relaid level)) (m : SqlMode) (held : List Char) :
    literalsFrom m (relaid level held) (c :: relaid level t) =
      (literalsFrom m held (c :: t)).map (relaid level) := by
  have longer : relaid level held ++ [c] = relaid level (held ++ [c]) :=
    (relaid_append (y := []) solid).symm
  have ends : ∀ d ∈ (held ++ [c]).getLast?, isBlank d = false := by
    rw [List.getLast?_concat]
    rintro _ ⟨rfl⟩
    exact solid
  rcases m.eq_or_plain with rfl | rfl | plain
  · by_cases quote : c = '\''
    · simp only [literalsFrom, if_pos quote]
      exact behind .quote held nofun
    · simp only [literalsFrom, if_neg quote, longer]
      exact behind .literal (held ++ [c]) fun _ => ends
  · by_cases quote : c = '\''
    · simp only [literalsFrom, if_pos quote, longer]
      exact behind .literal (held ++ [c]) fun _ => ends
    · simp only [literalsFrom, if_neg quote, List.map_cons]
      exact congrArg _ (behind (SqlMode.inCode c) [] fun _ => nofun)
  · rw [literalsFrom_plain_cons plain, literalsFrom_plain_cons plain]
    exact behind (m.after c) [] fun _ => nofun

/-- The literals of relaid text are those of the text, relaid.  The content so far of a literal
that goes on does not end in blanks: these are still to be read. -/
theorem literalsFrom_relaidBehind (blank : Blanks w)
    (ends : m = .literal → ∀ d ∈ held.getLast?, isBlank d = false) :
    literalsFrom m (relaid level held) (relaidBehind level w t) =
      (literalsFrom m held (w ++ t)).map (relaid level) := by
  induction t generalizing m held w with
  | nil =>
      rw [relaidBehind, literalsFrom_of_blanks (blanks_gap blank), List.append_nil,
        literalsFrom_of_blanks blank]
      rcases m.eq_or_plain with rfl | rfl | plain
      · rfl
      · rfl
      · rw [literalsFrom_nil_of_plain plain, literalsFrom_nil_of_plain plain]
        rfl
  | cons c t ih =>
      unfold relaidBehind
      split
      next here =>
        rw [ih (blanks_append.mpr ⟨blank, List.forall_mem_singleton.mpr here⟩) ends,
          List.append_assoc]
        rfl
      next solid =>
        have next := literalsFrom_relaid_cons (eq_false_of_ne_true solid)
          fun _ _ ends => ih (List.forall_mem_nil _) ends
        rcases m.eq_or_plain with rfl | rfl | plain
        · rw [literalsFrom_literal_blanks (blanks_gap blank), literalsFrom_literal_blanks blank,
            ← relaid_append_blanks (ends rfl) blank]
          exact next .literal (held ++ w)
        · by_cases none : w = []
          · rw [none]
            exact next .quote held
          · rw [literalsFrom_quote_blanks (blanks_gap blank) (gap_ne_nil none),
              literalsFrom_quote_blanks blank none, List.map_cons]
            exact congrArg _ (next .code [])
        · rw [literalsFrom_plain plain, literalsFrom_plain_blanks plain (blanks_gap blank),
            SqlMode.run_gap blank, literalsFrom_plain plain, literalsFrom_plain_blanks plain blank]
          exact next (m.run w) []

theorem literals_relaid (t : List Char) :
    literals (relaid level t) = (literals t).map (relaid level) :=
  have fromStart : literalsFrom .code (relaid level []) (relaidBehind level [] t) =
      (literalsFrom .code [] ([] ++ t)).map (relaid level) :=
    literalsFrom_relaidBehind nofun fun _ => nofun
  fromStart

end Literals

/-! ## Literals in written text -/

theorem literals_reindented (level : Nat) (text : String) :
    literals (reindented level text) = (literals text.toList).map (relaid level) := by
  rw [reindented_eq, ← literals_trim text.toList]
  split
  next empty =>
    rw [empty]
    rfl
  next =>
    rw [literals, literalsFrom_append_blanks (List.forall_mem_singleton.mpr rfl),
      literalsFrom_code_blanks (blanks_indentation level)]
    exact literals_relaid _

/-- Free-form text keeps its string literals in number and order wherever it is written.  Each
stretch of blanks in a literal that holds line feeds becomes these line feeds with the indentation
behind them, so the literals are kept at every level if, and only if, none of them goes over a line
end. -/
theorem literals_kept_iff (text : String) :
    (∀ w : Writer, (w.statements text).text.toList = w.text.toList ++ reindented w.level text ∧
        literals (reindented w.level text) = (literals text.toList).map (relaid w.level)) ∧
      ((∀ level, literals (reindented level text) = literals text.toList) ↔
        ∀ content ∈ literals text.toList, '\n' ∉ content) := by
  refine ⟨fun w => ⟨toList_text_statements w text, literals_reindented w.level text⟩, ?_⟩
  constructor
  · intro kept content member
    refine relaid_eq_self_iff.mp fun level => ?_
    have same : (literals text.toList).map (relaid level) = (literals text.toList).map id := by
      rw [List.map_id, ← literals_reindented, kept level]
    exact List.map_inj_left.mp same content member
  · intro plain level
    have same : (literals text.toList).map (relaid level) = (literals text.toList).map id :=
      List.map_inj_left.mpr fun content member => relaid_of_notMem (plain content member)
    rw [literals_reindented, same, List.map_id]

/-- A literal over two lines changes: the blanks around its line end go. -/
theorem literals_two_lines_ne : literals (reindented 0 "SELECT 'a  \n   b'") ≠
    literals "SELECT 'a  \n   b'".toList := by
  decide +kernel

end LearningStore.Text
