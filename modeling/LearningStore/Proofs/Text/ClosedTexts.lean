import LearningStore.Proofs.Text.Literals
import LearningStore.Text.Quoted

/-!
# Closed texts

A text is closed if each literal and each block comment that starts in it ends in it.  A comment up
to the end of the row may be the last of it: then what is put behind the text, on the same row, is
part of the comment.
-/

namespace LearningStore.Text

namespace SqlMode

/-- Whether a scan stands inside a comment. -/
def inComment : SqlMode → Bool
  | comment | block _ | star _ | inner _ => true
  | _ => false

/-- No literal and no comment is open, though a character of the next one may be behind. -/
structure Settled (m : SqlMode) : Prop where
  rested : m.rested = code
  outside : m.inComment = false

instance (m : SqlMode) : Decidable (Settled m) :=
  decidable_of_iff (m.rested = code ∧ m.inComment = false)
    ⟨fun h => ⟨h.1, h.2⟩, fun h => ⟨h.rested, h.outside⟩⟩

theorem settled_code : Settled code :=
  ⟨rfl, rfl⟩

theorem settled_quote : Settled quote :=
  ⟨rfl, rfl⟩

/-- Where literals and block comments are closed, only a comment up to the end of the row goes
on. -/
theorem inComment_iff {m : SqlMode} (rested : m.rested = code) : m.inComment = true ↔ m = comment := by
  cases m with
  | block depth => cases rested
  | inner depth => cases rested
  | star depth => cases depth <;> cases rested
  | comment => exact ⟨fun _ => rfl, fun _ => rfl⟩
  | _ => exact ⟨nofun, nofun⟩

end SqlMode

def Closed (t : List Char) : Prop :=
  (SqlMode.code.run t).rested = .code

instance (t : List Char) : Decidable (Closed t) :=
  inferInstanceAs (Decidable (_ = _))

/-- What follows a text on the row is part of a comment. -/
def EndsInComment (t : List Char) : Prop :=
  SqlMode.code.run t = .comment

instance (t : List Char) : Decidable (EndsInComment t) :=
  inferInstanceAs (Decidable (_ = _))

/-! ## Written texts -/

section Written

variable {level : Nat}

theorem run_indentation (level : Nat) :
    SqlMode.code.run (Line.indentation level).toList = .code :=
  SqlMode.run_rested (m := .code) (blanks_indentation level)

theorem rested_run_trim (t : List Char) :
    (SqlMode.code.run (trim t)).rested = (SqlMode.code.run t).rested := by
  obtain ⟨a, b, whole, front, back⟩ := exists_trim t
  have start : SqlMode.code.run a = .code := SqlMode.run_rested (m := .code) front
  have behind : SqlMode.code.run t = (SqlMode.code.run (trim t)).run b := by
    rw [whole, SqlMode.run_append, SqlMode.run_append, start, ← whole]
  rw [behind, SqlMode.rested_run back]

/-- Free-form text is scanned as it is written, up to the end of its last row. -/
theorem run_reindented (text : String) :
    SqlMode.code.run (reindented level text) = (SqlMode.code.run text.toList).rested := by
  rw [reindented_eq, ← rested_run_trim text.toList]
  split
  next empty =>
    rw [empty]
    rfl
  next =>
    rw [SqlMode.run_append, SqlMode.run_append, run_indentation, SqlMode.run_relaid]
    rfl

theorem run_render (l : Line) :
    SqlMode.code.run l.render.toList = (SqlMode.code.run l.text.toList).rested := by
  rw [l.toList_render, SqlMode.run_append, Line.shown]
  split
  next empty =>
    rw [show l.text = "" from String.isEmpty_iff.mp empty]
    rfl
  next =>
    rw [SqlMode.run_append, run_indentation]
    rfl

end Written

/-! ## Inert texts -/

/-- A character that starts neither a literal nor a comment. -/
def isInert (c : Char) : Bool :=
  c != '\'' && c != '-' && c != '/'

section Inert

variable {t : List Char} {c : Char}

theorem after_of_isInert (inert : isInert c = true) : SqlMode.code.after c = .code := by
  change SqlMode.inCode c = .code
  unfold SqlMode.inCode
  split
  next => cases inert
  next => cases inert
  next => cases inert
  next => rfl

theorem run_of_isInert (inert : ∀ c ∈ t, isInert c = true) : SqlMode.code.run t = .code := by
  induction t with
  | nil => rfl
  | cons c t ih =>
      obtain ⟨here, later⟩ := List.forall_mem_cons.mp inert
      rw [SqlMode.run, List.foldl_cons, after_of_isInert here]
      exact ih later

/-- A text whose first character neither goes on with the start of a literal or a comment nor
starts one. -/
def Fresh (t : List Char) : Prop :=
  t.head?.any (fun c => isInert c && c != '*') = true

instance (t : List Char) : Decidable (Fresh t) :=
  inferInstanceAs (Decidable (_ = _))

theorem Fresh.append (fresh : Fresh t) (u : List Char) : Fresh (t ++ u) := by
  cases t with
  | nil => cases fresh
  | cons c t => exact fresh

/-- A fresh text is scanned alike wherever nothing is open. -/
theorem Fresh.run_eq (fresh : Fresh t) {m : SqlMode} (settled : m.Settled) :
    m.run t = SqlMode.code.run t := by
  cases t with
  | nil => cases fresh
  | cons c t =>
      have both : (isInert c && c != '*') = true := fresh
      obtain ⟨inert, other⟩ := Bool.and_eq_true_iff.mp both
      have first : m.after c = SqlMode.code.after c := by
        obtain ⟨rested, outside⟩ := settled
        simp only [isInert, Bool.and_eq_true, bne_iff_ne] at inert
        cases m with
        | dash => exact if_neg inert.1.2
        | slash => exact if_neg (bne_iff_ne.mp other)
        | quote => exact if_neg inert.1.1
        | code => rfl
        | literal => cases rested
        | comment | block | star | inner => cases outside
      rw [SqlMode.run, SqlMode.run, List.foldl_cons, List.foldl_cons, first]

end Inert

/-! ## Quoted texts -/

theorem run_literal {t : List Char} (plain : '\'' ∉ t) : SqlMode.literal.run t = .literal := by
  induction t with
  | nil => rfl
  | cons c t ih =>
      obtain ⟨other, later⟩ := List.ne_and_not_mem_of_not_mem_cons plain
      have kept : SqlMode.literal.after c = .literal := if_neg other.symm
      rw [SqlMode.run, List.foldl_cons, kept]
      exact ih later

theorem run_doubleApostrophes (t : List Char) :
    SqlMode.literal.run (doubleApostrophes t) = .literal := by
  induction t with
  | nil => rfl
  | cons c t ih =>
      rw [doubleApostrophes]
      split
      next => exact ih
      next other =>
        have kept : SqlMode.literal.after c = .literal := if_neg other
        rw [SqlMode.run, List.foldl_cons, kept]
        exact ih

/-- A quoted text is a literal, whatever is in it. -/
theorem run_sqlString (text : String) : SqlMode.code.run (sqlString text).toList = .quote := by
  have inside : SqlMode.literal.run (doubleApostrophes text.toList ++ ['\'']) = .quote := by
    rw [SqlMode.run_append, run_doubleApostrophes]
    rfl
  rw [sqlString, String.toList_ofList]
  exact inside

end LearningStore.Text
