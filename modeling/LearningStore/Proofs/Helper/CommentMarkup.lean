import LearningStore.Proofs.Helper.CommentLines
import LearningStore.Proofs.Schema.CapturedMarkup
import LearningStore.Proofs.Value.Figures
import LearningStore.Proofs.Xml.TrimmedFragment

/-!
# Markup in documentation comments

The content of a comment is a well-formed fragment if its summary and its remarks are.  Each of
them is put together from lines.  A line that is made up leads a reader from character data back
to it, and so does documentation if its trimmed lines make a fragment; otherwise a reader stops in
it.  A default that is shown as it is can do anything.
-/

namespace LearningStore.Helper

open LearningStore.Schema
open LearningStore.Text
open LearningStore.Value
open LearningStore.Xml
open LearningStore.Xml.Fragment

/-! ## The content of a comment -/

namespace DocComment

/-- The lines of a comment without the slashes in front of them, one after the other. -/
def content (c : DocComment) : String :=
  String.join (c.lines.map fun l => String.ofList (l.text.toList.drop 3) ++ "\n")

/-- A comment whose content is a well-formed fragment. -/
def WellFormed (c : DocComment) : Prop :=
  IsFragment c.content

instance (c : DocComment) : Decidable c.WellFormed :=
  inferInstanceAs (Decidable (IsFragment c.content))

end DocComment

/-! ## Text that leads back -/

/-- Text that leads a reader from character data back to it, whatever is open around it. -/
def Neutral (text : String) : Prop :=
  ∀ opened, (State.content 0 opened).run text.toList = some (State.content 0 opened)

section Neutral

variable {a b name : String}

theorem Neutral.append (first : Neutral a) (second : Neutral b) : Neutral (a ++ b) := by
  intro opened
  rw [String.toList_append, State.run_append, first opened]
  exact second opened

/-- What is open around a text does not matter. -/
theorem neutral_of_run (read : (State.content 0 []).run a.toList = some (State.content 0 [])) :
    Neutral a :=
  fun _ => State.run_upon read

theorem neutral_of_plain (plain : State.PlainText a.toList) : Neutral a :=
  fun _ => State.run_plain plain

theorem isPlain_of_isFigure {c : Char} (figure : isFigure c = true) : State.isPlain c = true := by
  have other {d : Char} (mark : isFigure d = false) : c ≠ d := by
    rintro rfl
    rw [figure] at mark
    cases mark
  obtain ⟨low, high⟩ := toNat_of_isFigure figure
  have legal : isXmlChar c = true := by
    unfold isXmlChar
    rw [if_neg (by omega)]
    simp
    omega
  simp [State.isPlain, legal, other (d := '<') (by decide), other (d := '>') (by decide),
    other (d := '&') (by decide), other (d := ']') (by decide)]

theorem neutral_of_figures (figures : Figures a.toList) : Neutral a :=
  neutral_of_plain fun c inside => isPlain_of_isFigure (figures c inside)

theorem plainText_of_isIdentifier (named : IsIdentifier name) : State.PlainText name.toList := by
  intro c inside
  rcases isFigure_of_isIdentifier named c inside with figure | rfl
  · exact isPlain_of_isFigure figure
  · decide

theorem neutral_of_isIdentifier (named : IsIdentifier name) : Neutral name :=
  neutral_of_plain (plainText_of_isIdentifier named)

/-- A fragment with a character of text behind it. -/
theorem neutral_of_isFragment (fragment : IsFragment a) (plain : State.PlainText b.toList)
    (nonempty : b ≠ "") : Neutral (a ++ b) := by
  obtain ⟨n, read⟩ := fragment.exists_run
  intro opened
  rw [String.toList_append, State.run_append, read opened]
  obtain ⟨c, rest, spelled⟩ := List.exists_cons_of_ne_nil (mt String.toList_eq_nil_iff.mp nonempty)
  rw [spelled] at plain ⊢
  obtain ⟨here, later⟩ := List.forall_mem_cons.mp plain
  rw [Option.bind_some, State.run_cons, State.step_plain here]
  exact State.run_plain later

/-- Neutral text between a start tag and its end tag. -/
theorem Neutral.between (inner : Neutral a) (front back : String) (names : List (List Char))
    (opens : ∀ opened, (State.content 0 opened).run front.toList =
      some (State.content 0 (names ++ opened)))
    (closes : ∀ opened, (State.content 0 (names ++ opened)).run back.toList =
      some (State.content 0 opened)) : Neutral (front ++ a ++ back) := by
  intro opened
  rw [String.toList_append, String.toList_append, State.run_append, State.run_append, opens,
    Option.bind_some, inner, Option.bind_some, closes]

theorem neutral_fld (inner : Neutral a) : Neutral ("<Fld>" ++ a ++ "</Fld>") :=
  inner.between "<Fld>" "</Fld>" ["Fld".toList] (fun _ => rfl) fun _ => rfl

end Neutral

/-! ## Lines -/

/-- Lines one after the other. -/
def linesText (ls : List String) : List Char :=
  ls.flatMap fun t => t.toList ++ ['\n']

theorem linesText_append (a b : List String) : linesText (a ++ b) = linesText a ++ linesText b :=
  List.flatMap_append

/-- Behind a line end a blank changes nothing. -/
theorem step_space_of_feed {s s' : State} (read : s.step '\n' = some s') :
    s'.step ' ' = some s' := by
  have tidy := State.tidy_of_step read
  obtain ⟨-, mode, act, names, opened, next, -, rfl⟩ := State.step_eq_some_iff.mp read
  have row : s.mode.row = some mode := by rw [Mode.row, next]; rfl
  have same : mode.next ' ' = some (mode, .keep) := by
    cases mode with
    | value double => cases double <;> rfl
    | cdataMark read =>
        have stops := next_of_row row
        rw [next_cdataMark_of_isBlank rfl] at stops
        cases stops
    | _ => cases next_of_row row <;> rfl
  refine State.step_eq_some_iff.mpr ⟨rfl, _, _, _, _, same, rfl, ?_⟩
  exact congrArg (State.mk mode · opened) tidy.symm

/-- The blanks behind the slashes do not matter. -/
theorem run_behind_slashes {s : State} (blank : s.step ' ' = some s) (ls : List String) :
    s.run (ls.flatMap fun t => (if t.isEmpty then [] else ' ' :: t.toList) ++ ['\n']) =
      s.run (linesText ls) := by
  induction ls generalizing s with
  | nil => rfl
  | cons t ls ih =>
      have line : s.run (if t.isEmpty then [] else ' ' :: t.toList) = s.run t.toList := by
        split
        next empty => rw [String.isEmpty_iff.mp empty]; rfl
        next => rw [State.run_cons, blank]; rfl
      rw [linesText, List.flatMap_cons, List.flatMap_cons, State.run_append, State.run_append,
        State.run_append, State.run_append, line, Option.bind_assoc, Option.bind_assoc]
      refine congrArg (Option.bind _) (funext fun between => ?_)
      have single : between.run ['\n'] = between.step '\n' := Option.bind_fun_some _
      rw [single]
      cases read : between.step '\n' with
      | none => rfl
      | some s' => exact ih (step_space_of_feed read)

/-- Whether a reader gets over lines: if `P` holds, they lead from character data back to it, and
otherwise the reader stops in them. -/
structure Tells (ls : List String) (P : Prop) : Prop where
  leads (holds : P) (opened : List (List Char)) :
    (State.content 0 opened).run (linesText ls) = some (State.content 0 opened)
  stops (fails : ¬ P) (opened : List (List Char)) :
    (State.content 0 opened).run (linesText ls) = none

namespace Tells

variable {a b : List String} {P Q : Prop} {t : String}

theorem nil : Tells [] True :=
  ⟨fun _ _ => rfl, fun fails => absurd trivial fails⟩

theorem congr (h : Tells a P) (same : P ↔ Q) : Tells a Q :=
  propext same ▸ h

/-- A reader gets over no lines. -/
theorem of_nil (h : Tells [] P) : P := by
  by_contra fails
  have stops := h.stops fails []
  cases stops

theorem append (first : Tells a P) (second : Tells b Q) : Tells (a ++ b) (P ∧ Q) := by
  constructor
  · rintro ⟨p, q⟩ opened
    rw [linesText_append, State.run_append, first.leads p opened]
    exact second.leads q opened
  · intro fails opened
    rw [linesText_append, State.run_append]
    by_cases p : P
    · rw [first.leads p opened]
      exact second.stops (fun q => fails ⟨p, q⟩) opened
    · rw [first.stops p opened]
      rfl

theorem neutral (h : Neutral t) : Tells [t] True := by
  refine ⟨fun _ opened => ?_, fun fails => absurd trivial fails⟩
  rw [linesText, List.flatMap_singleton, State.run_append, h opened]
  rfl

theorem neutrals (h : ∀ t ∈ a, Neutral t) : Tells a True := by
  induction a with
  | nil => exact .nil
  | cons t rest ih =>
      obtain ⟨here, later⟩ := List.forall_mem_cons.mp h
      exact ((neutral here).append (ih later)).congr (and_self_iff ..)

/-- Lines between a start tag and its end tag. -/
theorem between (h : Tells a P) (front back : String) (names : List (List Char))
    (opens : ∀ opened, (State.content 0 opened).run (linesText [front]) =
      some (State.content 0 (names ++ opened)))
    (closes : ∀ opened, (State.content 0 (names ++ opened)).run (linesText [back]) =
      some (State.content 0 opened)) : Tells (front :: a ++ [back]) P := by
  have text (opened : List (List Char)) :
      (State.content 0 opened).run (linesText (front :: a ++ [back])) =
        ((State.content 0 (names ++ opened)).run (linesText a)).bind
          (·.run (linesText [back])) := by
    rw [List.cons_append, ← List.singleton_append, linesText_append, linesText_append,
      State.run_append, opens, Option.bind_some, State.run_append]
  constructor
  · intro holds opened
    rw [text, h.leads holds, Option.bind_some, closes]
  · intro fails opened
    rw [text, h.stops fails]
    rfl

end Tells

/-! ## Documentation -/

theorem forall_mem_texts {d : Documentation} {p : String → Prop} :
    (∀ m ∈ d.texts, p m) ↔ (∀ m ∈ d.summary, p m) ∧ ∀ m ∈ d.remarks, p m := by
  rw [Documentation.texts, List.forall_mem_append]
  exact and_congr (forall_congr' fun _ => imp_congr_left Option.mem_toList)
    (forall_congr' fun _ => imp_congr_left Option.mem_toList)

/-- Documentation is told by its trimmed lines. -/
theorem tells_trimmedLines {markup : String} (fragment : IsFragment markup) :
    Tells (trimmedLines markup) (IsFragment (Xml.shown markup)) := by
  have text : linesText (trimmedLines markup) = (Xml.shown markup).toList := by
    rw [Xml.shown, String.toList_join, List.flatMap_map, linesText]
    simp only [String.toList_append]
    rfl
  constructor
  · intro holds opened
    rw [text]
    exact fragment.shown_iff.mp holds opened
  · intro fails opened
    rw [text]
    rcases fragment.run_shown with stopped | going
    · exact stopped opened
    · exact absurd (fragment.shown_iff.mpr going) fails

theorem tells_markup {markup : Option String} (fragments : ∀ m ∈ markup, IsFragment m) :
    Tells (markup.toList.flatMap trimmedLines) (∀ m ∈ markup, IsFragment (Xml.shown m)) := by
  cases markup with
  | none =>
      exact Tells.nil.congr (iff_of_true trivial fun m held => absurd held (Option.not_mem_none m))
  | some m =>
      rw [Option.toList_some, List.flatMap_singleton]
      refine (tells_trimmedLines (fragments m rfl)).congr ?_
      constructor
      · rintro holds _ ⟨⟩
        exact holds
      · exact fun all => all m rfl

/-- Where a tag may begin, a line may end. -/
theorem step_feed_of_less {s s' : State} (read : s.step '<' = some s') :
    s.step '\n' ≠ none := by
  obtain ⟨-, mode, act, names, opened, next, -, -⟩ := State.step_eq_some_iff.mp read
  have goesOn : ∃ m, s.mode.next '\n' = some (m, .keep) := by
    cases m : s.mode with
    | text n => exact ⟨_, rfl⟩
    | comment | commentHyphen | cdata n | instruction | instructionEnd => exact ⟨_, rfl⟩
    | value double =>
        rw [m] at next
        cases double <;> cases next
    | cdataMark read =>
        have other : cdataWord[read]? ≠ some '<' :=
          fun found => absurd (List.mem_of_getElem? found) (by decide)
        rw [m, Mode.next, if_neg other] at next
        cases next
    | _ =>
        rw [m] at next
        cases next
  obtain ⟨m, next'⟩ := goesOn
  have taken := State.step_eq_some_iff.mpr ⟨rfl, m, .keep, _, _, next', rfl, rfl⟩
  rw [taken]
  exact Option.some_ne_none _

theorem asParagraph_concat (front : List String) (last : String) :
    DocComment.asParagraph (front ++ [last]) = front ++ [last ++ "<p/>"] := by
  induction front with
  | nil => rfl
  | cons t front ih =>
      rw [List.cons_append, DocComment.asParagraph, ih]
      · rfl
      · exact List.append_ne_nil_of_right_ne_nil front (List.cons_ne_nil last [])

/-- The mark behind a paragraph changes nothing. -/
theorem Tells.asParagraph {ls : List String} {P : Prop} (h : Tells ls P) :
    Tells (DocComment.asParagraph ls) P := by
  rcases List.eq_nil_or_concat' ls with rfl | ⟨front, last, rfl⟩
  · exact h
  -- the two differ in what follows the text of the last line
  have whole (mark : String) : linesText (front ++ [last ++ mark]) =
      (linesText front ++ last.toList) ++ (mark.toList ++ ['\n']) := by
    rw [linesText_append, linesText, linesText, List.flatMap_singleton, String.toList_append]
    simp only [List.append_assoc]
  have unmarked := whole ""
  rw [String.append_empty] at unmarked
  rw [asParagraph_concat]
  constructor
  · intro holds opened
    have back := h.leads holds opened
    rw [unmarked, State.run_append, Option.bind_eq_some_iff] at back
    obtain ⟨s, read, feed⟩ := back
    have feeds : Blanks ['\n'] := List.forall_mem_singleton.mpr (by decide)
    obtain ⟨j, rfl⟩ := content_of_blanks ((State.tidy_content 0 opened).run read) feeds feed
    rw [whole, State.run_append, read]
    rfl
  · intro fails opened
    have stuck := h.stops fails opened
    rw [unmarked, State.run_append] at stuck
    rw [whole, State.run_append]
    cases read : (State.content 0 opened).run (linesText front ++ last.toList) with
    | none => rfl
    | some s =>
        rw [read, Option.bind_some] at stuck
        have feed : s.step '\n' = none := (Option.bind_fun_some _).symm.trans stuck
        have less : s.step '<' = none := by
          cases taken : s.step '<' with
          | none => rfl
          | some s' => exact absurd feed (step_feed_of_less taken)
        rw [Option.bind_some]
        exact (State.run_cons s '<' _).trans (by rw [less]; rfl)

/-! ## Whole comments -/

theorem Tells.summary {ls : List String} {P : Prop} (h : Tells ls P) :
    Tells ("<summary>" :: ls ++ ["</summary>"]) P :=
  h.between "<summary>" "</summary>" ["summary".toList] (fun _ => rfl) fun _ => rfl

namespace DocComment

/-- The lines of a comment behind the slashes, with the tags. -/
def rows (c : DocComment) : List String :=
  ("<summary>" :: c.summary ++ ["</summary>"]) ++
    c.remarks.toList.flatMap fun ls => "<remarks>" :: ls ++ ["</remarks>"]

theorem lines_eq (c : DocComment) : c.lines = c.rows.map commentLine := by
  rw [lines, rows, List.map_append, element_summary, List.map_flatMap]
  simp only [← element_remarks]

theorem drop_commentLine (text : String) :
    (commentLine text).text.toList.drop 3 = if text.isEmpty then [] else ' ' :: text.toList := by
  have led : "/// ".toList = ['/', '/', '/', ' '] := rfl
  rw [commentLine]
  split
  next => rfl
  next => rw [line, String.toList_append, led]; rfl

theorem wellFormed_iff_rows (c : DocComment) : c.WellFormed ↔
    ∃ n, (State.content 0 []).run (linesText c.rows) = some (State.content n []) := by
  have text : c.content.toList =
      c.rows.flatMap fun t => (if t.isEmpty then [] else ' ' :: t.toList) ++ ['\n'] := by
    rw [content, String.toList_join, lines_eq, List.map_map, List.flatMap_map]
    simp only [Function.comp_apply, String.toList_append, String.toList_ofList, drop_commentLine]
    rfl
  rw [WellFormed, isFragment_iff, text, run_behind_slashes rfl]

end DocComment

/-- Remarks that end at their end tag exactly if `P` holds. -/
def Closes (ls : List String) (P : Prop) : Prop :=
  (∃ n, (State.content 0 ["remarks".toList]).run (linesText (ls ++ ["</remarks>"])) =
    some (State.content n [])) ↔ P

section Closes

variable {a b : List String} {P Q : Prop}

theorem Tells.closes (h : Tells a P) : Closes a P := by
  constructor
  · rintro ⟨n, read⟩
    by_contra fails
    rw [linesText_append, State.run_append, h.stops fails] at read
    cases read
  · intro holds
    refine ⟨0, ?_⟩
    rw [linesText_append, State.run_append, h.leads holds]
    rfl

theorem Tells.closes_append (first : Tells a P) (second : Closes b Q) :
    Closes (a ++ b) (P ∧ Q) := by
  rw [Closes, List.append_assoc, linesText_append, State.run_append]
  by_cases p : P
  · rw [first.leads p, Option.bind_some, and_iff_right p]
    exact second
  · rw [first.stops p]
    exact iff_of_false (fun ⟨_, read⟩ => Option.some_ne_none _ read.symm) fun both => p both.1

end Closes

/-- A comment is well-formed exactly if its summary is and its remarks are. -/
theorem DocComment.wellFormed_iff {c : DocComment} {P Q : Prop} (summary : Tells c.summary P)
    (remarks : ∀ ls ∈ c.remarks, Closes ls Q) (alone : c.remarks = none → Q) :
    c.WellFormed ↔ P ∧ Q := by
  rw [wellFormed_iff_rows, rows, linesText_append, State.run_append]
  by_cases p : P
  · rw [summary.summary.leads p, Option.bind_some, and_iff_right p]
    cases given : c.remarks with
    | none => exact iff_of_true ⟨0, rfl⟩ (alone given)
    | some ls =>
        have inside := remarks ls given
        rw [Closes] at inside
        rw [← inside, Option.toList_some, List.flatMap_singleton, List.cons_append,
          ← List.singleton_append, linesText_append, State.run_append]
        rfl
  · rw [summary.summary.stops p]
    exact iff_of_false (fun ⟨_, read⟩ => Option.some_ne_none _ read.symm) fun both => p both.1

/-! ## Comments made step by step -/

/-- A comment in which the summary is well-formed exactly if `P` holds, and the remarks exactly if
`Q` does. -/
structure DocComment.Settled (c : DocComment) (P Q : Prop) : Prop where
  summary : Tells c.summary P
  remarks : Tells (c.remarks.getD []) Q

namespace DocComment.Settled

variable {c : DocComment} {P Q R : Prop} {ls : List String} {text : String}

theorem wellFormed_iff (h : c.Settled P Q) : c.WellFormed ↔ P ∧ Q := by
  obtain ⟨summary, remarks⟩ := h
  cases given : c.remarks with
  | none =>
      rw [given] at remarks
      exact DocComment.wellFormed_iff summary
        (fun ls held => absurd (given ▸ held) (Option.not_mem_none ls)) fun _ => remarks.of_nil
  | some ls =>
      rw [given] at remarks
      refine DocComment.wellFormed_iff summary (fun ls' held => ?_)
        fun none => absurd (given.symm.trans none) (Option.some_ne_none ls)
      obtain rfl : ls = ls' := Option.some.inj (given.symm.trans held)
      exact remarks.closes

theorem ofSummary (neutral : Neutral text) : (DocComment.ofSummary text).Settled True True :=
  ⟨.neutral neutral, .nil⟩

theorem withSummary (h : c.Settled P Q) {markup : Option String}
    (fragments : ∀ m ∈ markup, IsFragment m) :
    (c.withSummary markup).Settled (P ∧ ∀ m ∈ markup, IsFragment (Xml.shown m)) Q :=
  ⟨h.summary.append (tells_markup fragments), h.remarks⟩

theorem withRemarkLines (h : c.Settled P Q) (more : Tells ls R) :
    (c.withRemarkLines ls).Settled P (Q ∧ R) :=
  ⟨h.summary, h.remarks.append more⟩

/-- Further lines that end with the remarks if `R` holds. -/
theorem wellFormed_withRemarkLines (h : c.Settled P Q) (closes : Closes ls R) :
    (c.withRemarkLines ls).WellFormed ↔ P ∧ Q ∧ R := by
  refine DocComment.wellFormed_iff h.summary (fun more held => ?_) fun none => by cases none
  cases held
  exact h.remarks.closes_append closes

theorem withNeutralLines (h : c.Settled P Q) (neutral : ∀ t ∈ ls, Neutral t) :
    (c.withRemarkLines ls).Settled P Q :=
  ⟨h.summary, (h.remarks.append (.neutrals neutral)).congr (and_iff_left trivial)⟩

theorem withRemark (h : c.Settled P Q) (neutral : Neutral text) :
    (c.withRemark text).Settled P Q :=
  h.withNeutralLines (List.forall_mem_singleton.mpr neutral)

theorem withRemarks (h : c.Settled P Q) {markup : Option String}
    (fragments : ∀ m ∈ markup, IsFragment m) :
    (c.withRemarks markup).Settled P (Q ∧ ∀ m ∈ markup, IsFragment (Xml.shown m)) := by
  have more := tells_markup fragments
  unfold DocComment.withRemarks
  split
  next nothing =>
    rw [nothing] at more
    exact ⟨h.summary, h.remarks.congr (and_iff_left more.of_nil).symm⟩
  next => exact h.withRemarkLines more.asParagraph

theorem withFieldList (h : c.Settled P Q) {names : List String}
    (neutral : ∀ n ∈ names, Neutral n) : (c.withFieldList names).Settled P Q := by
  have items : Tells ((names.mergeSort fun a b => decide (a ≤ b)).map
      fun n => "<li><Fld>" ++ n ++ "</Fld></li>") True := by
    refine .neutrals (List.forall_mem_map.mpr fun n member => ?_)
    have name := neutral n (List.mem_mergeSort.mp member)
    exact name.between "<li><Fld>" "</Fld></li>" ["Fld".toList, "li".toList] (fun _ => rfl)
      fun _ => rfl
  have list := items.between "<ul>" "</ul>" ["ul".toList] (fun _ => rfl) fun _ => rfl
  exact ⟨h.summary, (h.remarks.append list).congr (and_iff_left trivial)⟩

theorem withDocumentation (h : c.Settled P Q) {d : Documentation}
    (fragments : ∀ m ∈ d.texts, IsFragment m) :
    (c.withDocumentation d).Settled (P ∧ ∀ m ∈ d.summary, IsFragment (Xml.shown m))
      (Q ∧ ∀ m ∈ d.remarks, IsFragment (Xml.shown m)) := by
  obtain ⟨summary, remarks⟩ := forall_mem_texts.mp fragments
  exact (h.withSummary summary).withRemarks remarks

end DocComment.Settled

end LearningStore.Helper
