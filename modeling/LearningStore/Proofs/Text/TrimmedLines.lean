import LearningStore.Proofs.Text.Reindentation
import Mathlib.Data.List.Forall2

/-!
# Trimmed lines

A text is cut into lines at its line feeds.  Its trimmed lines are these lines, each without the
blanks at its ends, from the first one that is not blank to the last one.  Free-form text has the
same trimmed lines when it is written at any level, so that what is written can be written again
with nothing changed but the indentation.
-/

namespace LearningStore.Text

variable {level : Nat} {text : String} {t l : List Char} {ls : List (List Char)}

/-! ## Lines -/

/-- A text is cut into lines.  Each of them ends at a line feed, with one carriage return before
it counted to the line end, and what stands behind the last line feed is a line if it is not
empty. -/
inductive CutInto : List Char → List (List Char) → Prop
  | nothing : CutInto [] []
  | unended {l : List Char} (nonempty : l ≠ []) (row : '\n' ∉ l) : CutInto l [l]
  | feed {l rest : List Char} {ls : List (List Char)} (row : '\n' ∉ l)
      (bare : l.getLast? ≠ some '\r') (more : CutInto rest ls) :
      CutInto (l ++ '\n' :: rest) (l :: ls)
  | returnFeed {l rest : List Char} {ls : List (List Char)} (row : '\n' ∉ l)
      (more : CutInto rest ls) : CutInto (l ++ '\r' :: '\n' :: rest) (l :: ls)

theorem cutInto_lines (t : List Char) : CutInto t (lines t) := by
  fun_induction lines t with
  | case1 => exact .nothing
  | case2 rest ih => exact .feed (l := []) List.not_mem_nil (by decide) ih
  | case3 rest ih => exact .returnFeed (l := []) List.not_mem_nil ih
  | case4 c rest noFeed noReturn ih =>
      have longer {l : List Char} (row : '\n' ∉ l) : '\n' ∉ c :: l :=
        List.not_mem_cons_of_ne_of_not_mem (Ne.symm noFeed) row
      generalize lines rest = ls at ih
      cases ih with
      | nothing => exact .unended (List.cons_ne_nil c []) (longer List.not_mem_nil)
      | unended _ row => exact .unended (List.cons_ne_nil c rest) (longer row)
      | @feed l behind ls row bare more =>
          refine .feed (l := c :: l) (longer row) ?_ more
          -- a carriage return in front of the line feed would belong to the line end
          cases l with
          | nil => exact fun same => noReturn behind (Option.some.inj same) rfl
          | cons d l =>
              rw [List.getLast?_cons_cons]
              exact bare
      | returnFeed row more => exact .returnFeed (longer row) more

theorem CutInto.lines_eq (cut : CutInto t ls) : lines t = ls := by
  induction cut with
  | nothing => rfl
  | @unended l nonempty row =>
      obtain ⟨rs, r, single, listed⟩ := Text.lines_eq l
      rw [rows_single row, ← List.nil_append [l]] at single
      obtain ⟨rfl, same⟩ := List.append_inj' single rfl
      cases same
      rw [listed, if_neg nonempty]
      rfl
  | feed row bare more ih =>
      rw [lines_append_feed, rows_single row, ih, List.map_singleton, withoutReturn, if_neg bare]
      rfl
  | @returnFeed l rest ls row more ih =>
      have plain : '\n' ∉ l ++ ['\r'] := by simp [row]
      have ended : l ++ '\r' :: '\n' :: rest = (l ++ ['\r']) ++ '\n' :: rest := by simp
      rw [ended, lines_append_feed, rows_single plain, ih, List.map_singleton, withoutReturn,
        if_pos List.getLast?_concat, List.dropLast_concat]
      rfl

/-- A text is cut into its lines and into no others. -/
theorem lines_eq_iff : lines t = ls ↔ CutInto t ls := by
  refine ⟨?_, CutInto.lines_eq⟩
  rintro rfl
  exact cutInto_lines t

/-- A text that is put together from lines is cut into these lines, if none of them has a line
feed in it or ends in what would belong to its line end. -/
theorem cutInto_flatMap (each : ∀ l ∈ ls, '\n' ∉ l ∧ l.getLast? ≠ some '\r') :
    CutInto (ls.flatMap (· ++ ['\n'])) ls := by
  induction ls with
  | nil => exact .nothing
  | cons l ls ih =>
      obtain ⟨⟨row, bare⟩, others⟩ := List.forall_mem_cons.mp each
      rw [List.flatMap_cons, List.append_assoc]
      exact .feed row bare (ih others)

/-! ## Trimmed lines -/

/-- The trimmed lines of a text: what is left of each line, from the first line that is not blank
to the last one. -/
def TrimsTo (text : String) (ls : List String) : Prop :=
  ∃ whole kept, CutInto text.toList whole ∧ Stripped (fun l => l.all isBlank) whole kept ∧
    List.Forall₂ (fun l core => Stripped isBlank l core.toList) kept ls

/-- The lines of a text from the first one that is not blank to the last one. -/
def keptLines (text : String) : List (List Char) :=
  strip (fun l => l.all isBlank) (lines text.toList)

theorem isEmpty_trim (l : List Char) : (trim l).isEmpty = l.all isBlank := by
  rw [Bool.eq_iff_iff, List.isEmpty_iff, trim_eq_nil_iff, List.all_eq_true, Blanks]

/-- It makes no difference whether the lines are trimmed before the blank ones go or after. -/
theorem dropOuterEmpty_trim (text : String) :
    dropOuterEmpty ((lines text.toList).map trim) = (keptLines text).map trim := by
  have blank : List.isEmpty ∘ trim = fun l => l.all isBlank := funext isEmpty_trim
  have stripped := stripped_strip (List.isEmpty ∘ trim) (lines text.toList)
  rw [keptLines, ← blank]
  exact strip_eq_iff.mpr stripped.map

theorem trimmedLines_eq (text : String) :
    trimmedLines text = (keptLines text).map fun l => String.ofList (trim l) := by
  rw [trimmedLines, dropOuterEmpty_trim, List.map_map]
  rfl

theorem forall₂_stripped_iff {kept : List (List Char)} {ls : List String} :
    List.Forall₂ (fun l core => Stripped isBlank l core.toList) kept ls ↔
      kept.map (fun l => String.ofList (trim l)) = ls := by
  have trims (l : List Char) (core : String) :
      String.ofList (trim l) = core ↔ Stripped isBlank l core.toList := by
    rw [← String.toList_inj, String.toList_ofList, ← strip_eq_iff]
    rfl
  rw [← List.forall₂_eq_eq_eq, List.forall₂_map_left_iff]
  simp only [trims]

theorem trimmedLines_eq_iff {ls : List String} : trimmedLines text = ls ↔ TrimsTo text ls := by
  rw [trimmedLines_eq, ← forall₂_stripped_iff]
  constructor
  · intro each
    exact ⟨_, _, cutInto_lines text.toList, stripped_strip _ _, each⟩
  · rintro ⟨whole, kept, cut, stripped, each⟩
    rw [keptLines, lines_eq_iff.mpr cut, strip_eq_iff.mpr stripped]
    exact each

/-! ## Written lines -/

/-- A trimmed line as it is written at a level: nothing for an empty one, and every other one
behind the indentation. -/
inductive LaidOut (level : Nat) : String → List Char → Prop
  | empty : LaidOut level "" []
  | behind {core : String} (shows : ¬Blanks core.toList)
      (trimmed : Stripped isBlank core.toList core.toList) :
      LaidOut level core ((Line.indentation level).toList ++ core.toList)

theorem laidOut_laid (level : Nat) (l : List Char) :
    LaidOut level (String.ofList (trim l)) (laid level (trim l)) := by
  unfold laid
  split
  next empty =>
    rw [empty]
    exact .empty
  next some =>
    have shows : ¬Blanks (String.ofList (trim l)).toList := by
      rw [String.toList_ofList, ← trim_eq_nil_iff, trim_trim]
      exact some
    have trimmed : Stripped isBlank (String.ofList (trim l)).toList
        (String.ofList (trim l)).toList := by
      rw [String.toList_ofList]
      exact (stripped_strip isBlank l).self
    have behind : LaidOut level (String.ofList (trim l))
        ((Line.indentation level).toList ++ (String.ofList (trim l)).toList) :=
      .behind shows trimmed
    rw [String.toList_ofList] at behind
    exact behind

section LaidOut

variable {core : String} (laid : LaidOut level core l)

include laid

theorem LaidOut.trim_eq : trim l = core.toList := by
  cases laid with
  | empty => rfl
  | behind shows trimmed =>
      have around := trim_around (b := []) core.toList (blanks_indentation level) nofun
      rw [List.append_nil] at around
      exact around.trans (strip_eq_iff.mpr trimmed)

theorem LaidOut.feed_notMem (row : OneRow core) : '\n' ∉ l := by
  cases laid with
  | empty => exact List.not_mem_nil
  | behind shows trimmed =>
      rw [List.mem_append, not_or, Line.indentation, String.toList_ofList]
      exact ⟨fun feed => absurd (List.eq_of_mem_replicate feed) (by decide), row⟩

theorem LaidOut.getLast?_ne : l.getLast? ≠ some '\r' := by
  cases laid with
  | empty => exact nofun
  | behind shows trimmed =>
      have nonempty : core.toList ≠ [] := fun none => shows (by rw [none]; exact nofun)
      rw [List.getLast?_append_of_ne_nil _ nonempty]
      intro final
      cases trimmed.last '\r' final

end LaidOut

/-- The trimmed lines of a text as they are written at a level. -/
def laidLines (level : Nat) (text : String) : List (List Char) :=
  (keptLines text).map fun l => laid level (trim l)

theorem forall₂_laidOut (level : Nat) (text : String) :
    List.Forall₂ (LaidOut level) (trimmedLines text) (laidLines level text) := by
  rw [trimmedLines_eq, laidLines, List.forall₂_map_left_iff, List.forall₂_map_right_iff,
    List.forall₂_same]
  exact fun l _ => laidOut_laid level l

/-- Free-form text is written as its trimmed lines, each on a line of its own. -/
theorem cutInto_reindented (level : Nat) (text : String) :
    CutInto (reindented level text) (laidLines level text) := by
  have written := calc
    reindented level text = (renderLines (indentedBy level (statementLines text))).toList :=
      reindented_eq_renderLines level text
    _ = ((keptLines text).map trim).flatMap fun r => laid level r ++ ['\n'] := by
      rw [statementLines, trimmedLines, dropOuterEmpty_trim, toList_renderLines]
    _ = (laidLines level text).flatMap (· ++ ['\n']) := by
      rw [laidLines, List.flatMap_map, List.flatMap_map]
  rw [written]
  refine cutInto_flatMap (List.forall_mem_map.mpr fun l inside => ?_)
  have laid := laidOut_laid level l
  have member : String.ofList (trim l) ∈ trimmedLines text := by
    rw [trimmedLines_eq]
    exact List.mem_map_of_mem inside
  exact ⟨laid.feed_notMem (oneRow_of_mem_trimmedLines member), laid.getLast?_ne⟩

/-- A line is blank where it is laid out if it is blank in the text. -/
theorem all_isBlank_laid (level : Nat) (l : List Char) :
    (laid level (trim l)).all isBlank = l.all isBlank := by
  rw [← isEmpty_trim, (laidOut_laid level l).trim_eq, String.toList_ofList, isEmpty_trim]

theorem stripped_laidLines (level : Nat) (text : String) :
    Stripped (fun l => l.all isBlank) (laidLines level text) (laidLines level text) := by
  have blank : ((fun l => l.all isBlank) ∘ fun l => laid level (trim l)) =
      fun l => l.all isBlank := funext (all_isBlank_laid level)
  refine Stripped.map ?_
  rw [blank]
  exact (stripped_strip _ (lines text.toList)).self

theorem trimmedLines_reindented (level : Nat) (text : String) :
    trimmedLines (String.ofList (reindented level text)) = trimmedLines text := by
  have cut := cutInto_reindented level text
  have trims := (forall₂_laidOut level text).imp fun _ _ laid => strip_eq_iff.mp laid.trim_eq
  rw [trimmedLines_eq_iff, TrimsTo, String.toList_ofList]
  exact ⟨_, _, cut, stripped_laidLines level text, trims.flip⟩

/-- What free-form text has been written as at a level: its trimmed lines, laid out one by one.
The written text has the same trimmed lines, so that it can be written in place of the other. -/
structure Reindents (level : Nat) (text written : String) : Prop where
  laid : ∃ ls, CutInto written.toList ls ∧ List.Forall₂ (LaidOut level) (trimmedLines text) ls
  same : trimmedLines written = trimmedLines text
  again : ∀ w : Writer, w.statements written = w.statements text

/-- The trimmed lines of a text are its lines from the first that is not blank to the last, each
without the blanks at its ends.  A writer adds just these lines, laid out at its level, and they
stay what they are however often the text is written. -/
theorem trimmedLines_iff_and_reindents (text : String) :
    (∀ ls, trimmedLines text = ls ↔ TrimsTo text ls) ∧
      ∀ w : Writer, ∃ written, (w.statements text).text = w.text ++ written ∧
        Reindents w.level text written := by
  refine ⟨fun ls => trimmedLines_eq_iff, fun w => ⟨String.ofList (reindented w.level text), ?_⟩⟩
  have same := trimmedLines_reindented w.level text
  refine ⟨?_, ?_, same, fun v => ?_⟩
  · rw [← String.toList_inj, String.toList_append, String.toList_ofList]
    exact toList_text_statements w text
  · rw [String.toList_ofList]
    exact ⟨_, cutInto_reindented w.level text, forall₂_laidOut w.level text⟩
  · rw [Writer.statements, statementLines, same]
    rfl

example : trimmedLines "\n  a \r\n\n\u2003b\rc\r" = ["a", "", "b\rc"] := by
  decide

end LearningStore.Text
