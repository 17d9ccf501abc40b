import LearningStore.Proofs.Text.Reindentation
import LearningStore.Proofs.Xml.Fragment

/-!
# Fragments with trimmed lines

Comments show a fragment with its lines trimmed.  Blanks next to a line end do not matter to a
reader, with one exception: the Ogham space mark is a blank and a letter of names, so a name that
ends a line may lose letters.  What is left of the fragment is well-formed, or a reader stops in
it; that it goes on in markup behind it, or closes an element around it, cannot be.
-/

namespace LearningStore.Xml

open LearningStore.Text

namespace Fragment

variable {m m' n : Mode} {act : Act} {c : Char}

/-! ## Blanks and names -/

/-- The one blank that names may hold. -/
theorem eq_ogham_of_isBlank (blank : isBlank c = true) (inName : isNameChar c = true) :
    c = '\u1680' := by
  have number : c.toNat = 0x1680 := by
    simp [isBlank] at blank
    simp [isNameChar, isNameStart, inRanges, nameStartRanges, nameRestRanges] at inName
    omega
  exact Char.toNat_inj.mp number

theorem not_isNameChar_of_isSpace (space : isSpace c = true) : isNameChar c = false := by
  simp only [isSpace, Bool.or_eq_true, beq_iff_eq, or_assoc] at space
  rcases space with rfl | rfl | rfl | rfl <;> decide

/-- What the reader is in the middle of at the start of a row that follows. -/
def Mode.row (m : Mode) : Option Mode :=
  (m.next '\n').map Prod.fst

/-- The word in the mark of a section holds no blank. -/
theorem next_cdataMark_of_isBlank (blank : isBlank c = true) (read : Nat) :
    (Mode.cdataMark read).next c = none := by
  have noWord : cdataWord[read]? ≠ some c := by
    intro found
    have solid : ∀ d ∈ cdataWord, isBlank d = false := by decide
    rw [solid c (List.mem_of_getElem? found)] at blank
    cases blank
  exact if_neg noWord

/-- A blank that no name holds is read like a line end, if it is read at all. -/
theorem next_of_isBlank (blank : isBlank c = true) (apart : isNameChar c = false) :
    m.next c = none ∨ m.next c = m.next '\n' := by
  have notStart : isNameStart c = false := by
    rw [isNameChar, Bool.or_eq_false_iff] at apart
    exact apart.1
  have feed : isNameChar '\n' = false ∧ isNameStart '\n' = false ∧ isSpace '\n' = true := by decide
  have other {d : Char} (solid : isBlank d = false) : c ≠ d := ne_of_isBlank blank solid
  cases m with
  | cdataMark read => exact .inl (next_cdataMark_of_isBlank blank read)
  | value double =>
      refine .inr ?_
      cases double <;>
        simp [Mode.next, other (d := '"') rfl, other (d := '\'') rfl, other (d := '&') rfl,
          other (d := '<') rfl]
  | _ =>
      cases isSpace c <;>
      simp [Mode.next, tagPart, apart, notStart, feed, other (d := '<') rfl, other (d := '&') rfl,
        other (d := ']') rfl, other (d := '>') rfl, other (d := ';') rfl, other (d := '#') rfl,
        other (d := '/') rfl, other (d := '!') rfl, other (d := '?') rfl, other (d := '=') rfl,
        other (d := '"') rfl, other (d := '\'') rfl, other (d := '-') rfl, other (d := '[') rfl]

/-- At the start of a row a further line end changes nothing. -/
theorem next_of_row (row : m.row = some n) : n.next '\n' = some (n, .keep) := by
  cases m with
  | cdataMark read =>
      rw [Mode.row, next_cdataMark_of_isBlank rfl] at row
      cases row
  | value double => cases double <;> cases row <;> rfl
  | _ => cases row <;> rfl

/-- Acts that leave the open elements alone. -/
def Act.Level (act : Act) : Prop :=
  act ≠ .openElement ∧ act ≠ .closeElement

instance (act : Act) : Decidable act.Level :=
  inferInstanceAs (Decidable (_ ∧ _))

theorem level_of_next_feed (next : m.next '\n' = some (m', act)) : act.Level := by
  cases m with
  | cdataMark read =>
      rw [next_cdataMark_of_isBlank rfl] at next
      cases next
  | value double => cases double <;> cases next <;> decide
  | _ => cases next <;> decide

/-- No tag ends at a blank. -/
theorem level_of_isBlank (blank : isBlank c = true) (next : m.next c = some (m', act)) :
    act.Level := by
  cases inName : isNameChar c with
  | true =>
      rw [eq_ogham_of_isBlank blank inName] at next
      cases m with
      | cdataMark read =>
          rw [next_cdataMark_of_isBlank rfl] at next
          cases next
      | value double => cases double <;> cases next <;> decide
      | _ => cases next <;> decide
  | false =>
      rcases next_of_isBlank (m := m) blank inName with stops | same
      · rw [stops] at next
        cases next
      · exact level_of_next_feed (same ▸ next)

/-! ## Names that are lost -/

/-- How the reader of a fragment stands to the reader of the trimmed fragment: both are in the
middle of the same, or the name of an attribute is lost, which was made of blanks. -/
inductive Lags : Mode → Mode → Prop
  | same (m : Mode) : Lags m m
  | name : Lags .attributeName .startTag
  | equals : Lags .equals .startTag

/-- At the start of the row that follows, the readers stand like that, or the second has
stopped. -/
def LagsRow (m n : Mode) : Prop :=
  ∀ n' ∈ n.row, ∃ m' ∈ m.row, Lags m' n'

theorem Lags.trans {k : Mode} (first : Lags k m) (second : Lags m n) : Lags k n := by
  cases second with
  | same => exact first
  | name | equals =>
      cases first with
      | same => constructor

theorem LagsRow.trans {k : Mode} (first : LagsRow k m) (second : LagsRow m n) : LagsRow k n := by
  intro n' inside
  obtain ⟨m', between, lags⟩ := second n' inside
  obtain ⟨k', row, before⟩ := first m' between
  exact ⟨k', row, before.trans lags⟩

theorem lagsRow_of_eq (same : m.row = n.row) : LagsRow m n :=
  fun n' inside => ⟨n', same ▸ inside, .same n'⟩

theorem Lags.row (lags : Lags m n) : LagsRow m n := by
  cases lags with
  | same => exact lagsRow_of_eq rfl
  | name | equals =>
      rintro n' ⟨⟩
      exact ⟨.equals, rfl, .equals⟩

/-- Blanks in front of a line end can be left out. -/
theorem lagsRow_of_isBlank (blank : isBlank c = true) (next : m.next c = some (m', act)) :
    LagsRow m' m := by
  cases inName : isNameChar c with
  | true =>
      rw [eq_ogham_of_isBlank blank inName] at next
      cases m with
      | markup | endMark | instructionMark =>
          -- the name is lost as a whole, and no name stands behind the mark
          rintro n' ⟨⟩
      | startTag =>
          cases next
          rintro n' ⟨⟩
          exact ⟨.equals, rfl, .equals⟩
      | cdataMark read =>
          rw [next_cdataMark_of_isBlank rfl] at next
          cases next
      | value double => cases double <;> cases next <;> exact lagsRow_of_eq rfl
      | _ => cases next <;> exact lagsRow_of_eq rfl
  | false =>
      rcases next_of_isBlank (m := m) blank inName with stops | same
      · rw [stops] at next
        cases next
      · have row : m.row = some m' := by rw [Mode.row, ← same, next]; rfl
        refine lagsRow_of_eq ?_
        rw [row, Mode.row, next_of_row row]
        rfl

/-- Blanks behind a line end can be left out. -/
theorem Lags.next_of_isBlank (lags : Lags m n) (row : n.row = some n) (blank : isBlank c = true)
    (next : m.next c = some (m', act)) : Lags m' n := by
  cases inName : isNameChar c with
  | true =>
      rw [eq_ogham_of_isBlank blank inName] at next
      cases lags with
      | same =>
          cases m with
          | startTag =>
              cases next
              exact .name
          | cdataMark read =>
              rw [next_cdataMark_of_isBlank rfl] at next
              cases next
          | value double => cases double <;> cases next <;> exact .same _
          | _ => cases row <;> cases next <;> exact .same _
      | name =>
          cases next
          exact .name
      | equals => cases next
  | false =>
      rcases Fragment.next_of_isBlank (m := m) blank inName with stops | same
      · rw [stops] at next
        cases next
      · rw [same] at next
        cases lags with
        | same =>
            rw [next_of_row row] at next
            cases next
            exact .same m
        | name | equals =>
            cases next
            exact .equals

theorem next_startTag_of_isSpace (space : isSpace c = true) :
    Mode.startTag.next c = some (.startTag, .keep) := by
  have begins : isNameStart c = false := by
    have apart := not_isNameChar_of_isSpace space
    rw [isNameChar, Bool.or_eq_false_iff] at apart
    exact apart.1
  simp [Mode.next, tagPart, space, begins]

/-- In a tag the second reader begins a name with a character that the first one reads on in a name
with, or stops at it. -/
theorem next_startTag_of_isNameChar (inName : isNameChar c = true) :
    Mode.startTag.next c = none ∨
      Mode.startTag.next c = some (.attributeName, .beginAttribute) := by
  cases begins : isNameStart c with
  | true =>
      right
      rw [Mode.next, if_pos begins]
  | false =>
      have space : isSpace c = false := by
        rw [Bool.eq_false_iff]
        exact fun space => absurd inName (ne_true_of_eq_false (not_isNameChar_of_isSpace space))
      have slash : c ≠ '/' := by
        rintro rfl
        exact absurd inName (by decide)
      have closing : c ≠ '>' := by
        rintro rfl
        exact absurd inName (by decide)
      left
      simp [Mode.next, tagPart, space, begins, slash, closing]

/-- A further character is read alike, or the second reader stops. -/
theorem Lags.next (lags : Lags m n) (next : m.next c = some (m', act)) :
    n.next c = none ∨ ∃ n' act', n.next c = some (n', act') ∧ Lags m' n' ∧
      (act = act' ∨ act.Level ∧ act'.Level) := by
  cases lags with
  | same => exact .inr ⟨m', act, next, .same m', .inl rfl⟩
  | name =>
      rw [Mode.next] at next
      split at next
      next inName =>
        cases next
        exact (next_startTag_of_isNameChar inName).imp_right fun first =>
          ⟨_, _, first, .same _, .inr (by decide)⟩
      next =>
        split at next
        next space =>
          cases next
          exact .inr ⟨_, _, next_startTag_of_isSpace space, .equals, .inr (by decide)⟩
        next =>
          split at next
          next sign =>
            cases next
            subst sign
            exact .inl rfl
          next => cases next
  | equals =>
      rw [Mode.next] at next
      split at next
      next space =>
        cases next
        exact .inr ⟨_, _, next_startTag_of_isSpace space, .equals, .inl rfl⟩
      next =>
        split at next
        next sign =>
          cases next
          subst sign
          exact .inl rfl
        next => cases next

/-! ## Two readers -/

/-- What a reader comes to inside each list of open elements. -/
def Outcome : Type :=
  List (List Char) → Option State

/-- Read on in a text. -/
def Outcome.read (f : Outcome) (t : List Char) : Outcome :=
  fun base => (f base).bind (·.run t)

theorem Outcome.read_append (f : Outcome) (t u : List Char) :
    f.read (t ++ u) = (f.read t).read u := by
  funext base
  rw [Outcome.read, Outcome.read, Outcome.read, Option.bind_assoc]
  exact congrArg (f base).bind (funext fun s => s.run_append t u)

theorem Outcome.read_nil (f : Outcome) : f.read [] = f :=
  funext fun base => Option.bind_fun_some (f base)

/-- A relation between the reader of a text and one that leaves out blanks next to line ends, which
holds on over every character of a kind. -/
structure Carries (p : Char → Prop) (R : State → Outcome → Prop) : Prop where
  step {s s' : State} {f : Outcome} {c : Char} (ordinary : p c) (related : R s f)
    (read : s.step c = some s') : R s' (f.read [c])
  gap {s s' : State} {f : Outcome} {w : List Char} (ordinary : ∀ c ∈ w, p c) (related : R s f)
    (blank : Blanks w) (feed : '\n' ∈ w) (read : s.run w = some s') :
    R s' (f.read (w.filter (· == '\n')))

namespace Carries

variable {p : Char → Prop} {R : State → Outcome → Prop} {s s' : State} {f : Outcome}
  {t w : List Char}

theorem run (carries : Carries p R) (ordinary : ∀ c ∈ t, p c) (related : R s f)
    (read : s.run t = some s') : R s' (f.read t) := by
  induction t generalizing s f with
  | nil =>
      cases read
      rwa [f.read_nil]
  | cons c t ih =>
      obtain ⟨here, later⟩ := List.forall_mem_cons.mp ordinary
      rw [State.run_cons, Option.bind_eq_some_iff] at read
      obtain ⟨between, first, rest⟩ := read
      have whole : f.read (c :: t) = (f.read [c]).read t := f.read_append [c] t
      rw [whole]
      exact ih later (carries.step here related first) rest

theorem run_gap (carries : Carries p R) (ordinary : ∀ c ∈ w, p c) (related : R s f)
    (blank : Blanks w) (read : s.run w = some s') : R s' (f.read (Text.gap 0 w)) := by
  by_cases feed : '\n' ∈ w
  · have plain : Text.gap 0 w = w.filter (· == '\n') := by
      rw [gap_of_mem feed]
      exact List.append_nil _
    rw [plain]
    exact carries.gap ordinary related blank feed read
  · rw [gap_of_notMem feed]
    exact carries.run ordinary related read

/-- The relation holds on over the stretches of blanks of a text, each of them as it is written
without indentation. -/
theorem run_relaidBehind (carries : Carries p R) (ordinary : ∀ c ∈ w ++ t, p c) (related : R s f)
    (blank : Blanks w) (read : s.run (w ++ t) = some s') :
    R s' (f.read (relaidBehind 0 w t)) := by
  induction t generalizing s f w with
  | nil =>
      rw [List.append_nil] at ordinary read
      exact carries.run_gap ordinary related blank read
  | cons c t ih =>
      unfold relaidBehind
      split
      next here =>
        have regrouped : w ++ c :: t = (w ++ [c]) ++ t := by simp
        rw [regrouped] at ordinary read
        exact ih ordinary related (blanks_append.mpr ⟨blank, List.forall_mem_singleton.mpr here⟩)
          read
      next =>
        obtain ⟨front, back⟩ := List.forall_mem_append.mp ordinary
        obtain ⟨here, later⟩ := List.forall_mem_cons.mp back
        rw [State.run_append, Option.bind_eq_some_iff] at read
        obtain ⟨behind, stretch, rest⟩ := read
        rw [State.run_cons, Option.bind_eq_some_iff] at rest
        obtain ⟨between, first, rest⟩ := rest
        have whole : f.read (Text.gap 0 w ++ c :: relaidBehind 0 [] t) =
            ((f.read (Text.gap 0 w)).read [c]).read (relaidBehind 0 [] t) := by
          rw [← Outcome.read_append, ← Outcome.read_append]
          rfl
        rw [whole]
        have here' := carries.step here (carries.run_gap front related blank stretch) first
        exact ih (w := []) later here' (List.forall_mem_nil _) rest

end Carries

/-! ## A reader that reads the same -/

section Same

variable {s s' : State} {c : Char}

/-- A blank that no name holds leads where a line end leads. -/
theorem step_feed_of_isBlank (blank : isBlank c = true) (apart : isNameChar c = false)
    (read : s.step c = some s') : s.step '\n' = some s' := by
  obtain ⟨-, mode, act, names, opened, next, applied, rfl⟩ := State.step_eq_some_iff.mp read
  rcases next_of_isBlank (m := s.mode) blank apart with stops | same
  · rw [stops] at next
    cases next
  · rw [same] at next
    have blind : act.apply c s.names s.opened = act.apply '\n' s.names s.opened := by
      cases mode : s.mode with
      | cdataMark n =>
          rw [mode, next_cdataMark_of_isBlank rfl] at next
          cases next
      | value double =>
          rw [mode] at next
          cases double <;> cases next <;> rfl
      | _ =>
          rw [mode] at next
          cases next <;> rfl
    rw [blind] at applied
    exact State.step_eq_some_iff.mpr ⟨rfl, _, _, _, _, next, applied, rfl⟩

/-- At the start of a row a line end changes nothing. -/
theorem step_feed_again (read : s.step '\n' = some s') : s'.step '\n' = some s' := by
  have tidy := State.tidy_of_step read
  obtain ⟨-, mode, act, names, opened, next, -, rfl⟩ := State.step_eq_some_iff.mp read
  have row : s.mode.row = some mode := by rw [Mode.row, next]; rfl
  refine State.step_eq_some_iff.mpr ⟨rfl, _, _, _, _, next_of_row row, rfl, ?_⟩
  exact congrArg (State.mk mode · opened) tidy.symm

theorem run_feeds (again : s.step '\n' = some s) {w : List Char} (feeds : ∀ c ∈ w, c = '\n') :
    s.run w = some s := by
  induction w with
  | nil => rfl
  | cons c w ih =>
      obtain ⟨rfl, later⟩ := List.forall_mem_cons.mp feeds
      rw [State.run_cons, again]
      exact ih later

/-- Blanks that no name holds lead where one line end leads. -/
theorem step_feed_of_run {w : List Char} (nonempty : w ≠ []) (blank : Blanks w)
    (apart : ∀ c ∈ w, isNameChar c = false) (read : s.run w = some s') :
    s.step '\n' = some s' := by
  induction w generalizing s with
  | nil => exact absurd rfl nonempty
  | cons c w ih =>
      obtain ⟨here, later⟩ := List.forall_mem_cons.mp blank
      obtain ⟨apartHere, apartLater⟩ := List.forall_mem_cons.mp apart
      rw [State.run_cons, Option.bind_eq_some_iff] at read
      obtain ⟨between, first, rest⟩ := read
      have feed := step_feed_of_isBlank here apartHere first
      cases w with
      | nil =>
          cases rest
          exact feed
      | cons d w =>
          have again := ih (List.cons_ne_nil d w) later apartLater rest
          rw [step_feed_again feed] at again
          cases again
          exact feed

theorem feeds_filter (w : List Char) : ∀ c ∈ w.filter (· == '\n'), c = '\n' :=
  fun _ inside => beq_iff_eq.mp (List.mem_filter.mp inside).2

/-- The line ends of a stretch of blanks, the first of them apart. -/
theorem exists_cons_filter {w : List Char} (feed : '\n' ∈ w) :
    ∃ rest, w.filter (· == '\n') = '\n' :: rest ∧ ∀ c ∈ rest, c = '\n' := by
  have inside : '\n' ∈ w.filter (· == '\n') := List.mem_filter.mpr ⟨feed, rfl⟩
  obtain ⟨c, rest, whole⟩ := List.exists_cons_of_ne_nil (List.ne_nil_of_mem inside)
  have feeds := feeds_filter w
  rw [whole] at feeds ⊢
  obtain ⟨rfl, later⟩ := List.forall_mem_cons.mp feeds
  exact ⟨rest, rfl, later⟩

/-- The second reader comes to the same. -/
def Alike (s : State) (f : Outcome) : Prop :=
  ∀ base, f base = some (s.upon base)

/-- Without Ogham space marks the blanks next to line ends do not matter. -/
theorem carries_alike : Carries (· ≠ '\u1680') Alike where
  step _ related read base := by
    rw [Outcome.read, related base]
    exact State.run_upon (t := [_]) (by rw [State.run_cons, read]; rfl)
  gap ordinary related blank feed read base := by
    obtain ⟨rest, whole, feeds⟩ := exists_cons_filter feed
    have apart : ∀ c ∈ _, isNameChar c = false := fun c inside => by
      rw [Bool.eq_false_iff]
      exact fun inName => ordinary c inside (eq_ogham_of_isBlank (blank c inside) inName)
    have first := step_feed_of_run (List.ne_nil_of_mem feed) blank apart read
    rw [Outcome.read, related base]
    refine State.run_upon ?_
    rw [whole, State.run_cons, first]
    exact run_feeds (step_feed_again first) feeds

end Same

/-! ## A reader that may stop -/

/-- What becomes of the number of open elements. -/
def Act.depth : Act → Nat → Nat
  | openElement, n => n + 1
  | closeElement, n => n - 1
  | _, n => n

theorem Act.Level.depth (level : act.Level) (k : Nat) : act.depth k = k := by
  cases act with
  | openElement => exact absurd rfl level.1
  | closeElement => exact absurd rfl level.2
  | _ => rfl

theorem length_of_apply {names names' : Names} {opened opened' : List (List Char)}
    (applied : act.apply c names opened = some (names', opened')) :
    opened'.length = act.depth opened.length := by
  cases act with
  | endAttribute | endReference =>
      obtain ⟨-, same⟩ := Option.ite_none_right_eq_some.mp applied
      cases same
      rfl
  | endTarget =>
      obtain ⟨-, same⟩ := Option.ite_none_left_eq_some.mp applied
      cases same
      rfl
  | closeElement =>
      cases opened with
      | nil => cases applied
      | cons last rest =>
          obtain ⟨-, same⟩ := Option.ite_none_right_eq_some.mp applied
          cases same
          rfl
  | _ =>
      cases applied
      rfl

/-- The second reader has stopped, whatever is open around it, or it is behind the first one by
the letters that names have lost. -/
inductive Trails (s : State) (f : Outcome) : Prop
  | stopped (none : ∀ base, f base = none)
  | going (t : State) (tidy : t.Tidy) (lags : Lags s.mode t.mode)
      (depth : s.opened.length = t.opened.length) (goes : ∀ base, f base = some (t.upon base))

variable {s s' : State} {f : Outcome}

theorem Outcome.read_of_upon {t : State} (goes : ∀ base, f base = some (t.upon base))
    (nonempty : ∀ m, t.mode.next c = some (m, .closeElement) → t.opened ≠ []) :
    f.read [c] = fun base => (t.step c).map (State.upon · base) := by
  funext base
  rw [Outcome.read, goes base, ← State.step_upon nonempty]
  exact Option.bind_fun_some _

/-- The second reader takes a character that the first one takes, or stops at it. -/
theorem trails_of_next {t : State} {n' : Mode} {act' : Act} {k : Nat} (legal : isXmlChar c = true)
    (goes : ∀ base, f base = some (t.upon base)) (next : t.mode.next c = some (n', act'))
    (nonempty : act' = .closeElement → t.opened ≠ []) (lags : Lags s.mode n')
    (depth : s.opened.length = k) (depth' : act'.depth t.opened.length = k) :
    Trails s (f.read [c]) := by
  have nonempty' : ∀ m, t.mode.next c = some (m, .closeElement) → t.opened ≠ [] := by
    intro m closes
    rw [next] at closes
    cases closes
    exact nonempty rfl
  rw [Outcome.read_of_upon goes nonempty']
  cases applied : act'.apply c t.names t.opened with
  | none =>
      have stops : t.step c = none := by
        rw [State.step, if_pos legal, next, Option.bind_some]
        dsimp only
        rw [applied]
        rfl
      exact .stopped fun base => by rw [stops]; rfl
  | some x =>
      have read : t.step c = some ⟨n', n'.kept x.1, x.2⟩ :=
        State.step_eq_some_iff.mpr ⟨legal, n', act', x.1, x.2, next, applied, rfl⟩
      refine .going _ (State.tidy_of_step read) lags ?_ fun base => by rw [read]; rfl
      rw [depth, ← depth']
      exact (length_of_apply applied).symm

theorem stopped_of_next {t : State} (goes : ∀ base, f base = some (t.upon base))
    (next : t.mode.next c = none) : Trails s (f.read [c]) := by
  have stops : t.step c = none := by
    rw [State.step, next]
    exact ite_self none
  have nonempty : ∀ m, t.mode.next c = some (m, .closeElement) → t.opened ≠ [] := by
    intro m closes
    rw [next] at closes
    cases closes
  rw [Outcome.read_of_upon goes nonempty]
  exact .stopped fun base => by rw [stops]; rfl

theorem stopped_read (none : ∀ base, f base = none) (w : List Char) : Trails s (f.read w) :=
  .stopped fun base => by rw [Outcome.read, none base]; rfl

theorem Trails.step (trails : Trails s f) (read : s.step c = some s') :
    Trails s' (f.read [c]) := by
  obtain ⟨legal, m', act, names, opened, next, applied, rfl⟩ := State.step_eq_some_iff.mp read
  cases trails with
  | stopped none => exact stopped_read none [c]
  | going t _ lags depth goes =>
      rcases lags.next next with stops | ⟨n', act', next', lags', rfl | ⟨level, level'⟩⟩
      · exact stopped_of_next goes stops
      · refine trails_of_next legal goes next' ?_ lags' (length_of_apply applied) (by rw [depth])
        rintro rfl empty
        rw [empty, List.length_nil, List.length_eq_zero_iff] at depth
        exact State.ne_nil_of_closes read next depth
      · refine trails_of_next legal goes next' (fun closes => absurd closes level'.2) lags'
          (length_of_apply applied) ?_
        rw [level.depth, level'.depth, depth]

/-- Blanks open and close nothing. -/
theorem length_of_blanks {w : List Char} (blank : Blanks w) (read : s.run w = some s') :
    s'.opened.length = s.opened.length := by
  induction w generalizing s with
  | nil =>
      cases read
      rfl
  | cons c w ih =>
      obtain ⟨here, later⟩ := List.forall_mem_cons.mp blank
      rw [State.run_cons, Option.bind_eq_some_iff] at read
      obtain ⟨between, first, rest⟩ := read
      obtain ⟨-, _, _, _, _, next, applied, rfl⟩ := State.step_eq_some_iff.mp first
      rw [ih later rest, length_of_apply applied, (level_of_isBlank here next).depth]

/-- Behind a line end the first reader goes over blanks, and the second one waits. -/
theorem lags_of_run {n : Mode} {w : List Char} (row : n.row = some n) (lags : Lags s.mode n)
    (blank : Blanks w) (read : s.run w = some s') : Lags s'.mode n := by
  induction w generalizing s with
  | nil =>
      cases read
      exact lags
  | cons c w ih =>
      obtain ⟨here, later⟩ := List.forall_mem_cons.mp blank
      rw [State.run_cons, Option.bind_eq_some_iff] at read
      obtain ⟨between, first, rest⟩ := read
      obtain ⟨-, _, _, _, _, next, -, rfl⟩ := State.step_eq_some_iff.mp first
      exact ih (lags.next_of_isBlank row here next) later rest

/-- Blanks with a line end in them lead the first reader where a line end leads the second. -/
theorem lags_of_feed {n n' : Mode} {w : List Char} (lags : LagsRow s.mode n) (row : n.row = some n')
    (blank : Blanks w) (feed : '\n' ∈ w) (read : s.run w = some s') : Lags s'.mode n' := by
  induction w generalizing s with
  | nil => cases feed
  | cons c w ih =>
      obtain ⟨here, later⟩ := List.forall_mem_cons.mp blank
      rw [State.run_cons, Option.bind_eq_some_iff] at read
      obtain ⟨between, first, rest⟩ := read
      obtain ⟨-, mode, _, _, _, next, -, rfl⟩ := State.step_eq_some_iff.mp first
      by_cases ends : c = '\n'
      · subst ends
        obtain ⟨m', between, behind⟩ := lags n' row
        have same : s.mode.row = some mode := by rw [Mode.row, next]; rfl
        rw [same] at between
        cases between
        have again : n'.row = some n' := by rw [Mode.row, next_of_row row]; rfl
        exact lags_of_run again behind later rest
      · have longer : LagsRow mode n := (lagsRow_of_isBlank here next).trans lags
        exact ih longer later (List.mem_of_ne_of_mem (Ne.symm ends) feed) rest

/-- Where the second reader takes a line end, it takes more of them. -/
theorem read_feeds {t : State} {w : List Char} (goes : ∀ base, f base = some (t.upon base))
    (feed : '\n' ∈ w) : f.read (w.filter (· == '\n')) = f.read ['\n'] := by
  obtain ⟨rest, whole, feeds⟩ := exists_cons_filter feed
  have closesNot : ∀ (t : State) m, t.mode.next '\n' = some (m, .closeElement) → t.opened ≠ [] :=
    fun _ _ closes => absurd rfl (level_of_next_feed closes).2
  have apart : f.read ('\n' :: rest) = (f.read ['\n']).read rest := f.read_append ['\n'] rest
  rw [whole, apart, Outcome.read_of_upon goes (closesNot t)]
  funext base
  unfold Outcome.read
  cases read : t.step '\n' with
  | none => rfl
  | some t' =>
      have again : (t'.upon base).step '\n' = some (t'.upon base) := by
        rw [State.step_upon (closesNot t'), step_feed_again read]
        rfl
      exact run_feeds again feeds

theorem Trails.gap {w : List Char} (trails : Trails s f) (blank : Blanks w) (feed : '\n' ∈ w)
    (read : s.run w = some s') : Trails s' (f.read (w.filter (· == '\n'))) := by
  cases trails with
  | stopped none => exact stopped_read none _
  | going t _ lags depth goes =>
      rw [read_feeds goes feed]
      cases next : t.mode.next '\n' with
      | none => exact stopped_of_next goes next
      | some x =>
          have level := level_of_next_feed next
          have row : t.mode.row = some x.1 := by rw [Mode.row, next]; rfl
          refine trails_of_next rfl goes next (fun closes => absurd closes level.2)
            (lags_of_feed lags.row row blank feed read) ?_ (level.depth _)
          rw [length_of_blanks blank read, depth]

theorem carries_trails : Carries (fun _ => True) Trails where
  step _ related read := related.step read
  gap _ related blank feed read := related.gap blank feed read

/-! ## Trimmed fragments -/

theorem isPlain_of_isBlank (blank : isBlank c = true) (legal : isXmlChar c = true) :
    State.isPlain c = true := by
  simp [State.isPlain, legal, ne_of_isBlank blank (d := '<') rfl,
    ne_of_isBlank blank (d := '>') rfl, ne_of_isBlank blank (d := '&') rfl,
    ne_of_isBlank blank (d := ']') rfl]

section Blanks

variable {w : List Char} {k : Nat} {opened : List (List Char)}

/-- In character data blanks change nothing. -/
theorem run_of_blanks (blank : Blanks w) (read : (State.content 0 opened).run w = some s) :
    s = State.content 0 opened := by
  induction w with
  | nil =>
      cases read
      rfl
  | cons c w ih =>
      obtain ⟨here, later⟩ := List.forall_mem_cons.mp blank
      rw [State.run_cons, Option.bind_eq_some_iff] at read
      obtain ⟨between, first, rest⟩ := read
      obtain ⟨legal, -⟩ := State.step_eq_some_iff.mp first
      rw [State.step_plain (isPlain_of_isBlank here legal)] at first
      cases first
      exact ih later rest

/-- No markup ends at a blank. -/
theorem eq_text_of_isBlank (blank : isBlank c = true) (next : m.next c = some (.text k, act)) :
    ∃ j, m = .text j := by
  cases inName : isNameChar c with
  | true =>
      rw [eq_ogham_of_isBlank blank inName] at next
      cases m with
      | text j => exact ⟨j, rfl⟩
      | cdataMark read =>
          rw [next_cdataMark_of_isBlank rfl] at next
          cases next
      | value double => cases double <;> cases next
      | _ => cases next
  | false =>
      rcases next_of_isBlank (m := m) blank inName with stops | same
      · rw [stops] at next
        cases next
      · rw [same] at next
        cases m with
        | text j => exact ⟨j, rfl⟩
        | cdataMark read =>
            rw [next_cdataMark_of_isBlank rfl] at next
            cases next
        | value double => cases double <;> cases next
        | _ => cases next

theorem content_of_blanks (tidy : s.Tidy) (blank : Blanks w)
    (read : s.run w = some (State.content k opened)) : ∃ j, s = State.content j opened := by
  induction w generalizing s with
  | nil =>
      cases read
      exact ⟨k, rfl⟩
  | cons c w ih =>
      obtain ⟨here, later⟩ := List.forall_mem_cons.mp blank
      rw [State.run_cons, Option.bind_eq_some_iff] at read
      obtain ⟨between, first, rest⟩ := read
      obtain ⟨i, rfl⟩ := ih (State.tidy_of_step first) later rest
      obtain ⟨legal, mode, _, _, _, next, -, same⟩ := State.step_eq_some_iff.mp first
      obtain ⟨rfl, -, -⟩ := State.mk.inj same
      obtain ⟨j, inText⟩ := eq_text_of_isBlank here next
      rw [tidy.eq_content inText, State.step_plain (isPlain_of_isBlank here legal)] at first
      have opens : s.opened = opened := (State.mk.inj (Option.some.inj first)).2.2
      exact ⟨j, opens ▸ tidy.eq_content inText⟩

end Blanks

end Fragment

open Fragment

/-- Markup as comments show it: each line trimmed, without the blank lines at the ends. -/
def shown (markup : String) : String :=
  String.join ((trimmedLines markup).map (· ++ "\n"))

theorem toList_shown (markup : String) : (shown markup).toList = reindented 0 markup := by
  have rows : reindented 0 markup =
      (dropOuterEmpty ((lines markup.toList).map trim)).flatMap fun r => laid 0 r ++ ['\n'] := by
    rw [reindented_eq_renderLines, statementLines, trimmedLines, toList_renderLines]
  have plain (r : List Char) : laid 0 r = r := by
    unfold laid
    split
    next empty => exact empty.symm
    next => rfl
  rw [rows, shown, trimmedLines, String.toList_join, List.flatMap_map, List.flatMap_map]
  simp only [plain, String.toList_append, String.toList_ofList]
  rfl

section Shown

variable {markup : String} {opened : List (List Char)}

theorem run_shown (markup : String) (opened : List (List Char)) :
    (State.content 0 opened).run (shown markup).toList =
      ((State.content 0 opened).run (relaid 0 (trim markup.toList))).bind (·.step '\n') := by
  rw [toList_shown, reindented_eq]
  split
  next empty =>
    rw [empty]
    rfl
  next =>
    have unindented : (Line.indentation 0).toList = [] := rfl
    rw [unindented, List.nil_append, State.run_append]
    exact congrArg (Option.bind _) (funext fun s => Option.bind_fun_some (s.step '\n'))

/-- The middle of a fragment is a fragment. -/
theorem IsFragment.run_trim (h : IsFragment markup) :
    ∃ j, (State.content 0 []).run (trim markup.toList) = some (State.content j []) := by
  obtain ⟨n, read⟩ := isFragment_iff.mp h
  obtain ⟨a, b, whole, front, back⟩ := exists_trim markup.toList
  rw [whole, State.run_append, State.run_append, Option.bind_eq_some_iff] at read
  obtain ⟨behind, before, last⟩ := read
  obtain ⟨first, blanks, middle⟩ := Option.bind_eq_some_iff.mp before
  cases run_of_blanks front blanks
  obtain ⟨j, rfl⟩ :=
    content_of_blanks ((State.tidy_content 0 []).run middle) back last
  exact ⟨j, middle⟩

/-- What holds of the two readers holds where the fragment has been read. -/
theorem IsFragment.carried (h : IsFragment markup) {p : Char → Prop} {R : State → Outcome → Prop}
    (carries : Carries p R) (ordinary : ∀ c ∈ markup.toList, p c)
    (related : R (State.content 0 []) fun base => some (State.content 0 base)) :
    ∃ j, R (State.content j [])
      fun base => (State.content 0 base).run (relaid 0 (trim markup.toList)) := by
  obtain ⟨j, read⟩ := h.run_trim
  refine ⟨j, carries.run_relaidBehind (w := []) (fun c inside => ?_) related
    (List.forall_mem_nil _) read⟩
  exact ordinary c (trim_subset markup.toList inside)

/-- A reader of a fragment with trimmed lines is in character data behind it, with the same
elements open as before, or it has stopped. -/
theorem IsFragment.run_shown (h : IsFragment markup) :
    (∀ opened, (State.content 0 opened).run (shown markup).toList = none) ∨
      ∀ opened, (State.content 0 opened).run (shown markup).toList =
        some (State.content 0 opened) := by
  obtain ⟨j, trails⟩ := h.carried carries_trails (fun _ _ => trivial)
    (.going (State.content 0 []) rfl (.same _) rfl fun _ => rfl)
  cases trails with
  | stopped none => exact .inl fun opened => by rw [Xml.run_shown, none opened]; rfl
  | going t tidy lags depth goes =>
      have inText : t.mode = .text j := by
        generalize t.mode = m at lags
        cases lags
        rfl
      have closed : t.opened = [] := List.length_eq_zero_iff.mp depth.symm
      have same : t = State.content j [] := by
        rw [tidy.eq_content inText, closed]
      refine .inr fun opened => ?_
      rw [Xml.run_shown, goes opened, same]
      rfl

/-- Trimmed lines make a fragment if a reader goes over them. -/
theorem IsFragment.shown_iff (h : IsFragment markup) : IsFragment (shown markup) ↔
    ∀ opened, (State.content 0 opened).run (shown markup).toList =
      some (State.content 0 opened) := by
  constructor
  · intro fragment
    obtain ⟨n, read⟩ := isFragment_iff.mp fragment
    rcases h.run_shown with stopped | going
    · rw [stopped] at read
      cases read
    · exact going
  · exact fun going => isFragment_iff.mpr ⟨0, going []⟩

/-- A fragment without Ogham space marks is one with its lines trimmed. -/
theorem IsFragment.shown (h : IsFragment markup) (plain : '\u1680' ∉ markup.toList) :
    IsFragment (shown markup) := by
  obtain ⟨j, same⟩ := h.carried carries_alike (fun c inside => ne_of_mem_of_not_mem inside plain)
    fun _ => rfl
  have read : (State.content 0 []).run (relaid 0 (trim markup.toList)) =
      some (State.content j []) := same []
  refine isFragment_iff.mpr ⟨0, ?_⟩
  rw [Xml.run_shown, read]
  rfl

-- a name that loses its last letter is not closed by the whole name
example : IsFragment "<b\u1680\n>x</b\u1680>" ∧
    ¬ IsFragment (Xml.shown "<b\u1680\n>x</b\u1680>") := by
  decide

end Shown

end LearningStore.Xml
