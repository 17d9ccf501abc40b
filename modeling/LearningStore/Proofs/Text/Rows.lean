import LearningStore.Proofs.Text.SourceLines
import LearningStore.Proofs.Text.Trimming

/-!
# Rows

The rows of a text are what stands between its line feeds.  The lines of a text are its rows
without the carriage returns at their ends, and without an empty one behind the last line feed.
-/

namespace LearningStore.Text

/-! ## Rows and lines -/

def rows (t : List Char) : List (List Char) :=
  t.splitOn '\n'

/-- A row without the carriage return that belongs to its line end. -/
def withoutReturn (r : List Char) : List Char :=
  if r.getLast? = some '\r' then r.dropLast else r

theorem exists_cons_of_rows (t : List Char) : ∃ r rs, rows t = r :: rs :=
  List.exists_cons_of_ne_nil (List.splitOnP_ne_nil _ t)

theorem rows_cons_feed (t : List Char) : rows ('\n' :: t) = [] :: rows t := by
  rw [rows, List.splitOn, List.splitOnP_cons_eq_if_modifyHead, if_pos (by decide)]
  rfl

theorem rows_cons {c : Char} (plain : c ≠ '\n') {t r : List Char} {rs : List (List Char)}
    (split : rows t = r :: rs) : rows (c :: t) = (c :: r) :: rs := by
  have other : ¬ (c == '\n') = true := fun same => plain (beq_iff_eq.mp same)
  rw [rows, List.splitOn, List.splitOnP_cons_eq_if_modifyHead, if_neg other]
  exact congrArg (List.modifyHead (c :: ·)) split

/-- A text with an empty first row and another one begins with a line feed. -/
theorem exists_feed_of_rows {t : List Char} {rs : List (List Char)} (more : rs ≠ [])
    (split : rows t = [] :: rs) : ∃ rest, t = '\n' :: rest := by
  cases t with
  | nil =>
      cases split
      exact absurd rfl more
  | cons c rest =>
      by_cases feed : c = '\n'
      · exact ⟨rest, by rw [feed]⟩
      · obtain ⟨r, others, cut⟩ := exists_cons_of_rows rest
        rw [rows_cons feed cut] at split
        cases split

theorem rows_append_feed (a b : List Char) : rows (a ++ '\n' :: b) = rows a ++ rows b :=
  List.splitOnP_append_cons a b (by decide)

theorem rows_single {t : List Char} (plain : '\n' ∉ t) : rows t = [t] := by
  refine List.splitOnP_eq_singleton fun c inside => ?_
  rw [beq_eq_false_iff_ne]
  rintro rfl
  exact plain inside

/-- A text without line feeds. -/
def OneRow (text : String) : Prop :=
  '\n' ∉ text.toList

instance (text : String) : Decidable (OneRow text) :=
  inferInstanceAs (Decidable (_ ∉ _))

/-- Two texts stand on one row together if each of them stands on one. -/
theorem oneRow_append {a b : String} : OneRow (a ++ b) ↔ OneRow a ∧ OneRow b := by
  rw [OneRow, String.toList_append, List.mem_append, not_or]
  rfl

theorem OneRow.append {a b : String} (first : OneRow a) (second : OneRow b) : OneRow (a ++ b) :=
  oneRow_append.mpr ⟨first, second⟩

/-- A text that is spelled out stands on one row if its characters have no line feed. -/
theorem oneRow_ofList {chars : List Char} (plain : '\n' ∉ chars) :
    OneRow (String.ofList chars) := by
  rw [OneRow, String.toList_ofList]
  exact plain

theorem oneRow_ofList_append {a b : List Char} (first : '\n' ∉ a) (second : '\n' ∉ b) :
    OneRow (String.ofList a ++ String.ofList b) :=
  (oneRow_ofList first).append (oneRow_ofList second)

/-- The last row of a text and the first row of the text behind it are one row of both. -/
theorem rows_append (a : List Char) : ∃ xs x, rows a = xs ++ [x] ∧
    ∀ b y ys, rows b = y :: ys → rows (a ++ b) = xs ++ (x ++ y) :: ys := by
  induction a with
  | nil => exact ⟨[], [], rfl, fun b y ys back => back⟩
  | cons c a ih =>
      obtain ⟨xs, x, front, glue⟩ := ih
      by_cases feed : c = '\n'
      · subst feed
        refine ⟨[] :: xs, x, ?_, fun b y ys back => ?_⟩
        · rw [rows_cons_feed, front]
          rfl
        · rw [List.cons_append, rows_cons_feed, glue b y ys back]
          rfl
      · cases xs with
        | nil =>
            exact ⟨[], c :: x, rows_cons feed front,
              fun b y ys back => rows_cons feed (glue b y ys back)⟩
        | cons first xs =>
            exact ⟨(c :: first) :: xs, x, rows_cons feed front,
              fun b y ys back => rows_cons feed (glue b y ys back)⟩

theorem rows_append_of_notMem {a t r : List Char} {rs : List (List Char)} (plain : '\n' ∉ a)
    (split : rows t = r :: rs) : rows (a ++ t) = (a ++ r) :: rs := by
  obtain ⟨xs, x, front, glue⟩ := rows_append a
  rw [rows_single plain, ← List.nil_append [a]] at front
  obtain ⟨rfl, single⟩ := List.append_inj' front rfl
  cases single
  exact glue t r rs split

/-- The first row of a text is all of it, or a line feed and the other rows come behind it. -/
theorem exists_of_rows_eq_cons {t r : List Char} {rs : List (List Char)}
    (split : rows t = r :: rs) :
    ∃ b, t = r ++ b ∧ (b = [] ∧ rs = [] ∨ ∃ rest, b = '\n' :: rest ∧ rows rest = rs) := by
  induction t generalizing r with
  | nil =>
      cases split
      exact ⟨[], rfl, .inl ⟨rfl, rfl⟩⟩
  | cons c t ih =>
      by_cases feed : c = '\n'
      · rw [feed, rows_cons_feed] at split
        obtain ⟨rfl, others⟩ := List.cons.inj split
        exact ⟨c :: t, rfl, .inr ⟨t, by rw [feed], others⟩⟩
      · obtain ⟨q, qs, back⟩ := exists_cons_of_rows t
        rw [rows_cons feed back] at split
        obtain ⟨rfl, rfl⟩ := List.cons.inj split
        obtain ⟨b, whole, behind⟩ := ih back
        exact ⟨b, by rw [whole]; rfl, behind⟩

/-- A row stands between line feeds or the ends of the text. -/
theorem exists_of_mem_rows {t r : List Char} (member : r ∈ rows t) :
    ∃ a b, t = a ++ r ++ b ∧ (∀ c ∈ a.getLast?, c = '\n') ∧ ∀ c ∈ b.head?, c = '\n' := by
  generalize listed : rows t = ls at member
  induction ls generalizing t with
  | nil => cases member
  | cons q qs ih =>
      obtain ⟨b, rfl, behind⟩ := exists_of_rows_eq_cons listed
      rcases List.mem_cons.mp member with rfl | later
      · refine ⟨[], b, rfl, nofun, fun c first => ?_⟩
        rcases behind with ⟨rfl, -⟩ | ⟨rest, rfl, -⟩
        · cases first
        · cases first
          rfl
      · rcases behind with ⟨-, rfl⟩ | ⟨rest, rfl, others⟩
        · cases later
        · obtain ⟨a, e, rfl, before, last⟩ := ih others later
          refine ⟨q ++ '\n' :: a, e, by simp, fun c final => ?_, last⟩
          rw [List.getLast?_append_cons, List.getLast?_cons] at final
          cases ended : a.getLast? with
          | none =>
              rw [ended] at final
              cases final
              rfl
          | some d =>
              rw [ended] at final
              cases final
              exact before d ended

theorem feed_notMem_of_mem_rows {t r : List Char} (member : r ∈ rows t) : '\n' ∉ r := by
  induction t generalizing r with
  | nil =>
      rw [List.mem_singleton.mp member]
      exact nofun
  | cons c t ih =>
      by_cases feed : c = '\n'
      · rw [feed, rows_cons_feed] at member
        rcases List.mem_cons.mp member with rfl | later
        · exact nofun
        · exact ih later
      · obtain ⟨q, qs, back⟩ := exists_cons_of_rows t
        rw [back] at ih
        rw [rows_cons feed back] at member
        rcases List.mem_cons.mp member with rfl | later
        · exact List.not_mem_cons_of_ne_of_not_mem (Ne.symm feed) (ih List.mem_cons_self)
        · exact ih (List.mem_cons_of_mem q later)

theorem subset_of_mem_rows {t r : List Char} (member : r ∈ rows t) : r ⊆ t := by
  obtain ⟨a, b, rfl, -, -⟩ := exists_of_mem_rows member
  exact fun c inside => List.mem_append_left b (List.mem_append_right a inside)

theorem exists_before_of_mem_rows (a : List Char) {t r : List Char} (member : r ∈ rows t) :
    ∃ x, x ++ r ∈ rows (a ++ t) ∧ x ⊆ a := by
  obtain ⟨xs, x, front, glue⟩ := rows_append a
  obtain ⟨y, ys, back⟩ := exists_cons_of_rows t
  rw [glue t y ys back]
  rw [back] at member
  rcases List.mem_cons.mp member with rfl | later
  · refine ⟨x, List.mem_append_right xs List.mem_cons_self, subset_of_mem_rows ?_⟩
    rw [front]
    exact List.mem_concat_self
  · exact ⟨[], List.mem_append_right xs (List.mem_cons_of_mem _ later), List.nil_subset a⟩

theorem exists_behind_of_mem_rows (b : List Char) {t r : List Char} (member : r ∈ rows t) :
    ∃ y, r ++ y ∈ rows (t ++ b) ∧ y ⊆ b := by
  obtain ⟨xs, x, front, glue⟩ := rows_append t
  obtain ⟨y, ys, back⟩ := exists_cons_of_rows b
  rw [glue b y ys back]
  rw [front, List.mem_append, List.mem_singleton] at member
  rcases member with earlier | rfl
  · refine ⟨[], List.mem_append_left _ ?_, List.nil_subset b⟩
    rw [List.append_nil]
    exact earlier
  · refine ⟨y, List.mem_append_right xs List.mem_cons_self, subset_of_mem_rows ?_⟩
    rw [back]
    exact List.mem_cons_self

/-- A row is part of a row where something is put around the text. -/
theorem exists_around_of_mem_rows (a b : List Char) {t r : List Char} (member : r ∈ rows t) :
    ∃ x y, x ++ r ++ y ∈ rows (a ++ t ++ b) ∧ x ⊆ a ∧ y ⊆ b := by
  obtain ⟨x, inside, front⟩ := exists_before_of_mem_rows a member
  obtain ⟨y, whole, back⟩ := exists_behind_of_mem_rows b inside
  exact ⟨x, y, whole, front, back⟩

theorem trim_withoutReturn (r : List Char) : trim (withoutReturn r) = trim r := by
  unfold withoutReturn
  split
  next ends =>
    have whole : r = [] ++ r.dropLast ++ ['\r'] := by
      rw [List.nil_append]
      exact (List.dropLast_append_getLast? '\r' ends).symm
    have around := trim_around (a := []) (b := ['\r']) r.dropLast nofun (by simp [Blanks]; rfl)
    rw [← whole] at around
    exact around.symm
  next => rfl

/-- The lines of a text are its rows, except that a line feed at the very end starts no line, and
that a carriage return at the very end belongs to its line. -/
theorem lines_eq (t : List Char) : ∃ rs r, rows t = rs ++ [r] ∧
    lines t = rs.map withoutReturn ++ if r = [] then [] else [r] := by
  fun_induction lines t with
  | case1 => exact ⟨[], [], rfl, rfl⟩
  | case2 rest ih =>
      obtain ⟨rs, r, cut, listed⟩ := ih
      refine ⟨[] :: rs, r, ?_, ?_⟩
      · rw [rows_cons_feed, cut]
        rfl
      · rw [listed]
        rfl
  | case3 rest ih =>
      obtain ⟨rs, r, cut, listed⟩ := ih
      refine ⟨['\r'] :: rs, r, ?_, ?_⟩
      · rw [rows_cons (by decide) (rows_cons_feed rest), cut]
        rfl
      · rw [listed]
        rfl
  | case4 c rest noFeed noReturn ih =>
      obtain ⟨rs, r, cut, listed⟩ := ih
      cases rs with
      | nil =>
          refine ⟨[], c :: r, rows_cons noFeed cut, ?_⟩
          rw [listed]
          by_cases empty : r = []
          · simp [empty, consFirst]
          · simp [empty, consFirst]
      | cons first rs =>
          refine ⟨(c :: first) :: rs, r, rows_cons noFeed cut, ?_⟩
          have kept : withoutReturn (c :: first) = c :: withoutReturn first := by
            cases first with
            | nil =>
                obtain ⟨tail, begins⟩ := exists_feed_of_rows
                  (List.append_ne_nil_of_right_ne_nil rs (List.cons_ne_nil r [])) cut
                have other : c ≠ '\r' := fun same => noReturn tail same begins
                simp [withoutReturn, other]
            | cons d first =>
                unfold withoutReturn
                rw [List.getLast?_cons_cons]
                split <;> rfl
          rw [listed, List.map_cons, List.map_cons, kept]
          rfl

theorem lines_append_feed (a b : List Char) :
    lines (a ++ '\n' :: b) = (rows a).map withoutReturn ++ lines b := by
  obtain ⟨rs, r, cut, listed⟩ := lines_eq b
  obtain ⟨ss, s, whole, more⟩ := lines_eq (a ++ '\n' :: b)
  rw [rows_append_feed, cut, ← List.append_assoc] at whole
  obtain ⟨rfl, same⟩ := List.append_inj' whole rfl
  cases same
  rw [more, listed, List.map_append, List.append_assoc]

/-- A line is a row, but for the carriage return at its end. -/
theorem exists_row_of_mem_lines {t l : List Char} (member : l ∈ lines t) :
    ∃ r ∈ rows t, trim l = trim r := by
  obtain ⟨rs, r, cut, listed⟩ := lines_eq t
  rw [listed, List.mem_append] at member
  rw [cut]
  rcases member with inside | final
  · obtain ⟨q, earlier, rfl⟩ := List.mem_map.mp inside
    exact ⟨q, List.mem_append_left _ earlier, trim_withoutReturn q⟩
  · split at final
    next => cases final
    next =>
      obtain rfl := List.mem_singleton.mp final
      exact ⟨l, List.mem_concat_self, rfl⟩

/-- A trimmed line is a trimmed row. -/
theorem exists_row_of_mem_trimmedLines {text core : String} (member : core ∈ trimmedLines text) :
    ∃ r ∈ rows text.toList, core.toList = trim r := by
  obtain ⟨l, inside, spelled⟩ := exists_of_mem_trimmedLines member
  obtain ⟨r, row, same⟩ := exists_row_of_mem_lines inside
  exact ⟨r, row, spelled.trans same⟩

theorem oneRow_of_mem_trimmedLines {text core : String} (member : core ∈ trimmedLines text) :
    OneRow core := by
  obtain ⟨r, row, spelled⟩ := exists_row_of_mem_trimmedLines member
  rw [OneRow, spelled]
  exact fun feed => feed_notMem_of_mem_rows row (trim_subset r feed)

/-- The lines of a line as it is written. -/
def Line.rows (l : Line) : List (List Char) :=
  (Text.rows l.shown).map withoutReturn

theorem Line.rows_line (text : String) :
    (line text).rows = (Text.rows text.toList).map withoutReturn := by
  have shown : (line text).shown = text.toList := by
    unfold Line.shown
    split
    next empty =>
      rw [show text = "" from String.isEmpty_iff.mp empty]
      rfl
    next => rfl
  rw [Line.rows, shown]

theorem lines_renderLines (ls : List Line) :
    lines (renderLines ls).toList = ls.flatMap Line.rows := by
  induction ls with
  | nil => rfl
  | cons l ls ih =>
      rw [renderLines_cons, String.toList_append, l.toList_render, List.append_assoc,
        List.singleton_append, lines_append_feed, ih]
      rfl

end LearningStore.Text
