import LearningStore.Proofs.Text.Rows

/-!
# Reindentation

Free-form text is written row by row, each row trimmed and indented.  Seen from the text as a
whole, the blanks at its ends go, and each stretch of blanks that holds line feeds becomes these
line feeds with the indentation behind them.  Nothing else changes.
-/

namespace LearningStore.Text

variable {level : Nat} {v w x y t : List Char} {c : Char}

/-! ## Stretches of blanks -/

theorem ne_of_isBlank (blank : isBlank c = true) {d : Char} (solid : isBlank d = false) :
    c ≠ d := by
  rintro rfl
  rw [blank] at solid
  cases solid

/-- What is written for a stretch of blanks: its line feeds and the indentation behind them.  A
stretch inside a row stays as it is. -/
def gap (level : Nat) (w : List Char) : List Char :=
  if '\n' ∈ w then w.filter (· == '\n') ++ (Line.indentation level).toList else w

/-- What is written for a text that follows a stretch of blanks, the stretch included. -/
def relaidBehind (level : Nat) : List Char → List Char → List Char
  | w, [] => gap level w
  | w, c :: t =>
      if isBlank c then relaidBehind level (w ++ [c]) t
      else gap level w ++ c :: relaidBehind level [] t

/-- A text with every stretch of blanks as it is written. -/
def relaid (level : Nat) (t : List Char) : List Char :=
  relaidBehind level [] t

theorem blanks_indentation (level : Nat) : Blanks (Line.indentation level).toList := by
  rw [Line.indentation, String.toList_ofList]
  exact blanks_replicate (4 * level)

theorem gap_of_notMem (plain : '\n' ∉ w) : gap level w = w :=
  if_neg plain

theorem gap_of_mem (feed : '\n' ∈ w) :
    gap level w = w.filter (· == '\n') ++ (Line.indentation level).toList :=
  if_pos feed

theorem blanks_gap (blank : Blanks w) : Blanks (gap level w) := by
  unfold gap
  split
  next =>
    exact blanks_append.mpr
      ⟨fun c inside => blank c (List.mem_of_mem_filter inside), blanks_indentation level⟩
  next => exact blank

theorem feed_mem_gap : '\n' ∈ gap level w ↔ '\n' ∈ w := by
  unfold gap
  split
  next feed =>
    simp only [List.mem_append, List.mem_filter, feed, beq_self_eq_true, and_self, true_or]
  next => rfl

theorem gap_ne_nil (nonempty : w ≠ []) : gap level w ≠ [] := by
  by_cases feed : '\n' ∈ w
  · exact List.ne_nil_of_mem (feed_mem_gap.mpr feed)
  · rw [gap_of_notMem feed]
    exact nonempty

theorem relaidBehind_blanks (blank : Blanks w) :
    relaidBehind level v (w ++ t) = relaidBehind level (v ++ w) t := by
  induction w generalizing v with
  | nil => rw [List.nil_append, List.append_nil]
  | cons c w ih =>
      obtain ⟨here, later⟩ := List.forall_mem_cons.mp blank
      rw [List.cons_append, relaidBehind, if_pos here, ih later, List.append_assoc]
      rfl

/-- A character that is not blank ends the stretches before it. -/
theorem relaidBehind_append (solid : isBlank c = false) :
    relaidBehind level w (x ++ c :: y) = relaidBehind level w x ++ c :: relaid level y := by
  induction x generalizing w with
  | nil => exact if_neg (ne_true_of_eq_false solid)
  | cons d x ih =>
      by_cases blank : isBlank d = true
      · rw [List.cons_append, relaidBehind, if_pos blank, ih, relaidBehind, if_pos blank]
      · rw [List.cons_append, relaidBehind, if_neg blank, ih, relaidBehind, if_neg blank,
          List.append_assoc]
        rfl

theorem relaid_append (solid : isBlank c = false) :
    relaid level (x ++ c :: y) = relaid level x ++ c :: relaid level y :=
  relaidBehind_append solid

theorem relaid_of_blanks (blank : Blanks w) : relaid level w = gap level w := by
  have behind : relaidBehind level [] (w ++ []) = relaidBehind level ([] ++ w) [] :=
    relaidBehind_blanks blank
  rw [List.append_nil, List.nil_append] at behind
  exact behind

/-- A stretch of blanks is written alike behind every text that does not end in blanks. -/
theorem relaid_append_blanks (ends : ∀ c ∈ x.getLast?, isBlank c = false) (blank : Blanks w) :
    relaid level (x ++ w) = relaid level x ++ gap level w := by
  rcases List.eq_nil_or_concat' x with rfl | ⟨front, c, rfl⟩
  · exact relaid_of_blanks blank
  · have solid : isBlank c = false := ends c List.getLast?_concat
    rw [List.append_assoc, List.singleton_append, relaid_append solid,
      relaid_of_blanks blank, relaid_append solid, List.append_assoc]
    rfl

theorem relaidBehind_of_notMem (front : '\n' ∉ w) (plain : '\n' ∉ t) :
    relaidBehind level w t = w ++ t := by
  induction t generalizing w with
  | nil => rw [relaidBehind, gap_of_notMem front, List.append_nil]
  | cons c t ih =>
      obtain ⟨other, later⟩ := List.ne_and_not_mem_of_not_mem_cons plain
      unfold relaidBehind
      split
      next =>
        have longer : '\n' ∉ w ++ [c] := by simp [front, other]
        rw [ih longer later, List.append_assoc]
        rfl
      next => rw [gap_of_notMem front, ih List.not_mem_nil later, List.nil_append]

/-- Text within one row is written as it is. -/
theorem relaid_of_notMem (plain : '\n' ∉ t) : relaid level t = t :=
  relaidBehind_of_notMem List.not_mem_nil plain

theorem length_indentation_le_relaidBehind (feed : '\n' ∈ w ++ t) :
    4 * level ≤ (relaidBehind level w t).length := by
  have lasting : ∀ {w : List Char}, '\n' ∈ w → 4 * level ≤ (gap level w).length := by
    intro w inside
    rw [gap_of_mem inside, Line.indentation, String.toList_ofList, List.length_append,
      List.length_replicate]
    omega
  induction t generalizing w with
  | nil =>
      rw [List.append_nil] at feed
      exact lasting feed
  | cons c t ih =>
      unfold relaidBehind
      split
      next =>
        refine ih ?_
        rw [List.append_assoc]
        exact feed
      next solid =>
        rw [List.length_append, List.length_cons]
        rcases List.mem_append.mp feed with before | behind
        · have := lasting before
          omega
        · have other : '\n' ≠ c := by
            rintro rfl
            exact solid rfl
          have later := ih (w := []) (List.mem_of_ne_of_mem other behind)
          omega

/-- Text over several rows is changed at some indentation. -/
theorem relaid_eq_self_iff : (∀ level, relaid level t = t) ↔ '\n' ∉ t := by
  refine ⟨fun kept feed => ?_, fun plain level => relaid_of_notMem plain⟩
  have long : 4 * (t.length + 1) ≤ (relaidBehind (t.length + 1) [] t).length :=
    length_indentation_le_relaidBehind feed
  have same := congrArg List.length (kept (t.length + 1))
  rw [relaid] at same
  omega

/-! ## Written rows -/

/-- A trimmed row as it is written at a level. -/
def laid (level : Nat) (r : List Char) : List Char :=
  if r = [] then [] else (Line.indentation level).toList ++ r

/-- Rows as they are written, each trimmed. -/
def laidRows (level : Nat) (ls : List (List Char)) : List Char :=
  ls.flatMap fun r => laid level (trim r) ++ ['\n']

theorem toList_renderLines (level : Nat) (ls : List (List Char)) :
    (renderLines (indentedBy level ((ls.map String.ofList).map line))).toList =
      ls.flatMap fun r => laid level r ++ ['\n'] := by
  induction ls with
  | nil => rfl
  | cons r ls ih =>
      have shown : (⟨0 + level, String.ofList r⟩ : Line).shown = laid level r := by
        simp [Line.shown, laid]
      rw [List.map_cons, List.map_cons, indentedBy, List.map_cons, renderLines_cons,
        String.toList_append, Line.toList_render, line, shown, List.flatMap_cons, ← ih]
      rfl

theorem dropOuterEmpty_nil_cons (ls : List (List Char)) :
    dropOuterEmpty ([] :: ls) = dropOuterEmpty ls := by
  have around := strip_around (p := List.isEmpty) (a := [[]]) (b := []) ls (by simp) nofun
  rw [List.append_nil] at around
  exact around

theorem dropOuterEmpty_append_nil (ls : List (List Char)) :
    dropOuterEmpty (ls ++ [[]]) = dropOuterEmpty ls :=
  strip_around (p := List.isEmpty) (a := []) ls nofun (by simp)

/-- What the written lines of a text are taken from: its trimmed rows. -/
theorem dropOuterEmpty_lines (t : List Char) :
    dropOuterEmpty ((lines t).map trim) = dropOuterEmpty ((rows t).map trim) := by
  obtain ⟨rs, r, cut, listed⟩ := lines_eq t
  have same : (rs.map withoutReturn).map trim = rs.map trim := by
    rw [List.map_map]
    exact List.map_congr_left fun r _ => trim_withoutReturn r
  rw [cut, listed, List.map_append, same, List.map_append]
  split
  next empty =>
    rw [empty, List.map_nil, List.append_nil]
    exact (dropOuterEmpty_append_nil _).symm
  next => rfl

theorem dropOuterEmpty_blanks_append (blank : Blanks w) (t : List Char) :
    dropOuterEmpty ((rows (w ++ t)).map trim) = dropOuterEmpty ((rows t).map trim) := by
  induction w with
  | nil => rfl
  | cons c w ih =>
      obtain ⟨here, later⟩ := List.forall_mem_cons.mp blank
      rw [← ih later, List.cons_append]
      by_cases feed : c = '\n'
      · rw [feed, rows_cons_feed]
        exact dropOuterEmpty_nil_cons _
      · obtain ⟨r, rs, cut⟩ := exists_cons_of_rows (w ++ t)
        have around := trim_around (a := [c]) (b := []) r (List.forall_mem_singleton.mpr here) nofun
        rw [List.append_nil] at around
        rw [rows_cons feed cut, cut, List.map_cons, List.map_cons, ← around]
        rfl

theorem dropOuterEmpty_append_blanks (blank : Blanks w) (t : List Char) :
    dropOuterEmpty ((rows (t ++ w)).map trim) = dropOuterEmpty ((rows t).map trim) := by
  induction w generalizing t with
  | nil => rw [List.append_nil]
  | cons c w ih =>
      obtain ⟨here, later⟩ := List.forall_mem_cons.mp blank
      rw [← List.singleton_append, ← List.append_assoc, ih later]
      by_cases feed : c = '\n'
      · rw [feed, rows_append_feed, List.map_append]
        exact dropOuterEmpty_append_nil _
      · obtain ⟨xs, x, front, glue⟩ := rows_append t
        have around := trim_around (a := []) (b := [c]) x nofun (List.forall_mem_singleton.mpr here)
        rw [List.nil_append] at around
        rw [glue [c] [c] [] (rows_cons feed rfl), front, List.map_append, List.map_append,
          List.map_singleton, List.map_singleton, around]

theorem exists_of_solid {t : List Char} (nonempty : t ≠ [])
    (last : ∀ c ∈ t.getLast?, isBlank c = false) :
    ∃ w c u, t = w ++ c :: u ∧ Blanks w ∧ isBlank c = false := by
  cases front : t.dropWhile isBlank with
  | nil =>
      have final : t.getLast nonempty ∈ t.getLast? := List.getLast_mem_getLast? nonempty
      have blank := List.dropWhile_eq_nil_iff.mp front _ (List.getLast_mem nonempty)
      rw [last _ final] at blank
      cases blank
  | cons c u =>
      have solid := List.head?_dropWhile_not isBlank t
      rw [front] at solid
      refine ⟨t.takeWhile isBlank, c, u, ?_, fun d inside => List.mem_takeWhile_imp inside, solid⟩
      rw [← front, List.takeWhile_append_dropWhile]

/-- Blanks in front of a text are written as their line feeds. -/
theorem laidRows_blanks_append (blank : Blanks w) (t : List Char) :
    laidRows level (rows (w ++ t)) = w.filter (· == '\n') ++ laidRows level (rows t) := by
  induction w with
  | nil => rfl
  | cons c w ih =>
      obtain ⟨here, later⟩ := List.forall_mem_cons.mp blank
      by_cases feed : c = '\n'
      · rw [feed, List.cons_append, rows_cons_feed, List.filter_cons_of_pos (by rfl),
          List.cons_append, ← ih later]
        rfl
      · obtain ⟨r, rs, cut⟩ := exists_cons_of_rows (w ++ t)
        have around := trim_around (a := [c]) (b := []) r (List.forall_mem_singleton.mpr here) nofun
        rw [List.append_nil] at around
        rw [List.filter_cons_of_neg (by simpa using feed), ← ih later, List.cons_append,
          rows_cons feed cut, cut, laidRows, laidRows, List.flatMap_cons, List.flatMap_cons,
          ← around]
        rfl

theorem relaid_cons (solid : isBlank c = false) : relaid level (c :: t) = c :: relaid level t :=
  relaid_append (x := []) solid

/-- A row with the blanks and the text behind it. -/
theorem relaid_row_append (plain : '\n' ∉ x) (blank : Blanks w) (solid : isBlank c = false) :
    relaid level (x ++ '\n' :: (w ++ c :: t)) =
      trimEnd x ++ ('\n' :: w.filter (· == '\n') ++ (Line.indentation level).toList ++
        relaid level (c :: t)) := by
  obtain ⟨b, row, ended⟩ := exists_trimEnd x
  have unchanged : '\n' ∉ trimEnd x ∧ '\n' ∉ b := by
    rw [row, List.mem_append, not_or] at plain
    exact plain
  have stretch : Blanks (b ++ '\n' :: w) :=
    blanks_append.mpr ⟨ended, List.forall_mem_cons.mpr ⟨rfl, blank⟩⟩
  have feeds : (b ++ '\n' :: w).filter (· == '\n') = '\n' :: w.filter (· == '\n') := by
    rw [List.filter_append, List.filter_eq_nil_iff.mpr, List.nil_append]
    · exact List.filter_cons_of_pos rfl
    · rintro d inside same
      rw [beq_iff_eq] at same
      exact unchanged.2 (same ▸ inside)
  have regrouped : x ++ '\n' :: (w ++ c :: t) = trimEnd x ++ (b ++ '\n' :: w) ++ c :: t := by
    nth_rewrite 1 [row]
    simp
  rw [regrouped, relaid_append solid,
    relaid_append_blanks (fun d => not_isBlank_of_getLast?_trimEnd) stretch,
    relaid_of_notMem unchanged.1, gap_of_mem (by simp), feeds, relaid_cons solid,
    List.append_assoc]

theorem trim_cons (solid : isBlank c = false) (r : List Char) :
    trim (c :: r) = trimEnd (c :: r) := by
  rw [trim, trimStart, List.dropWhile_cons_of_neg (ne_true_of_eq_false solid)]

theorem trimEnd_cons_ne_nil (solid : isBlank c = false) (r : List Char) :
    trimEnd (c :: r) ≠ [] := by
  intro empty
  have blankRow := trim_eq_nil_iff.mp ((trim_cons solid r).trans empty) c List.mem_cons_self
  rw [solid] at blankRow
  cases blankRow

/-- A text that neither starts nor ends with a blank is written as it is relaid. -/
theorem laidRows_rows (t : List Char) (solid : isBlank c = false)
    (last : ∀ d ∈ (c :: t).getLast?, isBlank d = false) :
    laidRows level (rows (c :: t)) =
      (Line.indentation level).toList ++ relaid level (c :: t) ++ ['\n'] := by
  induction long : (c :: t).length using Nat.strong_induction_on generalizing c t with
  | _ n ih =>
      obtain ⟨r, rs, cut⟩ := exists_cons_of_rows (c :: t)
      have plain : '\n' ∉ r := feed_notMem_of_mem_rows (cut ▸ List.mem_cons_self)
      obtain ⟨b, whole, ⟨rfl, rfl⟩ | ⟨rest, rfl, rfl⟩⟩ := exists_of_rows_eq_cons cut
      · have single : c :: t = r := by rw [whole, List.append_nil]
        have kept : trim r = r :=
          trim_eq_self (by rw [← single]; rintro _ ⟨rfl⟩; exact solid) (single ▸ last)
        rw [cut, single, relaid_of_notMem plain, laidRows, List.flatMap_singleton, kept, laid,
          if_neg (by rw [← single]; exact List.cons_ne_nil c t)]
      · -- the text goes on behind the first row and the blanks that follow it
        have behind : ∀ d ∈ rest.getLast?, isBlank d = false := by
          intro d final
          refine last d ?_
          rw [whole, List.getLast?_append_cons, List.getLast?_cons, Option.mem_def.mp final]
          rfl
        have more : rest ≠ [] := by
          rintro rfl
          have ended := last '\n' (by rw [whole]; exact List.getLast?_concat)
          cases ended
        obtain ⟨w, d, u, rfl, blank, next⟩ := exists_of_solid more behind
        have shorter : (d :: u).length < n := by
          rw [← long, whole]
          simp only [List.length_append, List.length_cons]
          omega
        have later := ih _ shorter u next (fun e final => behind e (by
          rw [List.getLast?_append_of_ne_nil _ (List.cons_ne_nil d u)]
          exact final)) rfl
        have row : trim r = trimEnd r ∧ trimEnd r ≠ [] := by
          cases r with
          | nil =>
              obtain ⟨rfl, -⟩ := List.cons.inj whole
              cases solid
          | cons e r =>
              obtain ⟨rfl, -⟩ := List.cons.inj whole
              exact ⟨trim_cons solid r, trimEnd_cons_ne_nil solid r⟩
        rw [cut, laidRows, List.flatMap_cons, row.1, laid, if_neg row.2, ← laidRows,
          laidRows_blanks_append blank, later, whole, relaid_row_append plain blank next]
        simp only [List.append_assoc, List.cons_append, List.nil_append]

/-- A text that neither starts nor ends with a blank has no blank row at an end. -/
theorem dropOuterEmpty_rows (nonempty : t ≠ []) (first : ∀ c ∈ t.head?, isBlank c = false)
    (last : ∀ c ∈ t.getLast?, isBlank c = false) :
    dropOuterEmpty ((rows t).map trim) = (rows t).map trim := by
  have shown {r : List Char} {d : Char} (inside : d ∈ r) (solid : isBlank d = false) :
      (trim r).isEmpty = false := by
    rw [List.isEmpty_eq_false_iff, ne_eq, trim_eq_nil_iff]
    intro blank
    rw [blank d inside] at solid
    cases solid
  refine strip_eq_self ?_ ?_
  · obtain ⟨c, u, rfl⟩ := List.exists_cons_of_ne_nil nonempty
    have solid := first c rfl
    obtain ⟨r, rs, cut⟩ := exists_cons_of_rows u
    have other : c ≠ '\n' := by
      rintro rfl
      cases solid
    rw [rows_cons other cut, List.map_cons]
    rintro _ ⟨rfl⟩
    exact shown List.mem_cons_self solid
  · obtain ⟨u, c, rfl⟩ := (List.eq_nil_or_concat' t).resolve_left nonempty
    have solid := last c List.getLast?_concat
    have other : c ≠ '\n' := by
      rintro rfl
      cases solid
    obtain ⟨xs, x, -, glue⟩ := rows_append u
    rw [glue [c] [c] [] (rows_cons other rfl), List.map_append, List.map_singleton,
      List.getLast?_concat]
    rintro _ ⟨rfl⟩
    exact shown (List.mem_append_right x List.mem_cons_self) solid

/-! ## Written text -/

/-- The text that free-form text makes at a level. -/
def reindented (level : Nat) (text : String) : List Char :=
  ((⟨level, []⟩ : Writer).statements text).text.toList

theorem reindented_eq_renderLines (level : Nat) (text : String) :
    reindented level text = (renderLines (indentedBy level (statementLines text))).toList := by
  simp only [reindented, Writer.statements, Writer.append, Writer.text, List.nil_append]

/-- Free-form text is put behind what is written already, at the level of the writer. -/
theorem toList_text_statements (w : Writer) (text : String) :
    (w.statements text).text.toList = w.text.toList ++ reindented w.level text := by
  rw [reindented_eq_renderLines, Writer.statements, Writer.append, Writer.text,
    renderLines_append, String.toList_append, Writer.text]

/-- Free-form text is written as its trimmed form relaid, or not at all if it is blank. -/
theorem reindented_eq (level : Nat) (text : String) :
    reindented level text = if trim text.toList = [] then []
      else (Line.indentation level).toList ++ relaid level (trim text.toList) ++ ['\n'] := by
  have rowsOf : reindented level text =
      (dropOuterEmpty ((rows (trim text.toList)).map trim)).flatMap
        fun r => laid level r ++ ['\n'] := by
    obtain ⟨a, b, whole, front, back⟩ := exists_trim text.toList
    rw [← dropOuterEmpty_append_blanks back, ← dropOuterEmpty_blanks_append front,
      ← List.append_assoc, ← whole, ← dropOuterEmpty_lines, ← toList_renderLines,
      reindented_eq_renderLines, statementLines, trimmedLines]
  split
  next empty =>
    rw [rowsOf, empty]
    rfl
  next solid =>
    have first : ∀ c ∈ (trim text.toList).head?, isBlank c = false :=
      fun c => not_isBlank_of_head?_trim
    have last : ∀ c ∈ (trim text.toList).getLast?, isBlank c = false :=
      fun c => not_isBlank_of_getLast?_trimEnd
    rw [rowsOf, dropOuterEmpty_rows solid first last, List.flatMap_map]
    obtain ⟨c, t, core⟩ := List.exists_cons_of_ne_nil solid
    rw [core] at first last ⊢
    exact laidRows_rows t (first c rfl) last

end LearningStore.Text
