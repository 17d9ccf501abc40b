import LearningStore.Text.Layout
import LearningStore.Text.Quoted
import Mathlib.Data.List.Basic

/-!
# Lines of source text

A compiler ends a line at more characters than a line feed.  A text is contained in a comment
if all its lines but the first are comment lines of their own, since the first goes on behind
the slashes.  Containment does not change where a text on one line is put around another, nor
where marks in it are escaped.
-/

namespace LearningStore.Text

/-- The characters that end a line of source text: line feed, carriage return, next line, line
separator and paragraph separator. -/
def terminators : List Char := ['\n', '\r', '\u0085', '\u2028', '\u2029']

def isTerminator (c : Char) : Bool :=
  terminators.contains c

/-- The lines of source text, with what follows the last line end.  A carriage return right
before a line feed belongs to its line end. -/
def sourceLines : List Char → List (List Char)
  | [] => [[]]
  | c :: rest =>
      if c = '\r' ∧ rest.head? = some '\n' then sourceLines rest
      else if isTerminator c then [] :: sourceLines rest
      else (sourceLines rest).modifyHead (c :: ·)

/-- The blanks that can stand before the first word of a line. -/
def isIndentation (c : Char) : Bool :=
  isBlank c && !isTerminator c

/-- A line that consists of indentation and the slashes of a documentation comment, with
whatever follows. -/
def isCommentLine (l : List Char) : Bool :=
  (List.replicate 3 '/').isPrefixOf (l.dropWhile isIndentation)

/-- Behind the slashes of a comment line, all of the text is comment. -/
def Contained (text : String) : Prop :=
  ∀ l ∈ (sourceLines text.toList).tail, isCommentLine l = true

/-- A text without line ends. -/
def OneLine (text : List Char) : Prop :=
  ∀ c ∈ text, isTerminator c = false

instance (text : String) : Decidable (Contained text) :=
  List.decidableBAll _ _

instance (text : List Char) : Decidable (OneLine text) :=
  List.decidableBAll _ _

/-! ## Texts on one line -/

section OneLine

variable {a b : List Char}

@[simp] theorem oneLine_append : OneLine (a ++ b) ↔ OneLine a ∧ OneLine b :=
  List.forall_mem_append

@[simp] theorem oneLine_cons {c : Char} :
    OneLine (c :: a) ↔ isTerminator c = false ∧ OneLine a :=
  List.forall_mem_cons

theorem OneLine.nil : OneLine [] :=
  nofun

theorem OneLine.subset (h : OneLine b) (inside : a ⊆ b) : OneLine a :=
  fun c member => h c (inside member)

theorem oneLine_around {a text b : String} (front : OneLine a.toList)
    (inner : OneLine text.toList) (back : OneLine b.toList) : OneLine (a ++ text ++ b).toList := by
  rw [String.toList_append, String.toList_append]
  exact oneLine_append.mpr ⟨oneLine_append.mpr ⟨front, inner⟩, back⟩

theorem oneLine_replicate (n : Nat) {c : Char} (plain : isTerminator c = false) :
    OneLine (List.replicate n c) := by
  intro d member
  rw [List.eq_of_mem_replicate member]
  exact plain

/-- A property that no line end has sets the other characters apart. -/
theorem not_isTerminator_of {p : Char → Bool} (none_ends : terminators.any p = false)
    {c : Char} (has : p c = true) : isTerminator c = false := by
  rw [Bool.eq_false_iff]
  intro ends
  exact List.any_eq_false.mp none_ends c (List.contains_iff_mem.mp ends) has

theorem isTerminator_return : isTerminator '\r' = true := by decide

theorem isTerminator_feed : isTerminator '\n' = true := by decide

theorem ne_of_not_isTerminator {c d : Char} (other : isTerminator c = false)
    (ends : isTerminator d = true) : c ≠ d := by
  rintro rfl
  rw [ends] at other
  cases other

theorem OneLine.head?_ne (h : OneLine a) : a.head? ≠ some '\n' := by
  intro first
  exact ne_of_not_isTerminator (h '\n' (List.mem_of_mem_head? first)) isTerminator_feed rfl

end OneLine

/-! ## Lines of texts put together -/

theorem sourceLines_cons_plain {c : Char} (plain : isTerminator c = false) (rest : List Char) :
    sourceLines (c :: rest) = (sourceLines rest).modifyHead (c :: ·) := by
  have other : ¬(c = '\r' ∧ rest.head? = some '\n') := fun both =>
    ne_of_not_isTerminator plain isTerminator_return both.1
  rw [sourceLines, if_neg other, plain, if_neg Bool.false_ne_true]

theorem sourceLines_cons_end {c : Char} (ends : isTerminator c = true) (single : c ≠ '\r')
    (rest : List Char) : sourceLines (c :: rest) = [] :: sourceLines rest := by
  rw [sourceLines, if_neg (fun both => single both.1), if_pos ends]

/-- A relation between the lines of two texts goes on to the texts with one more character in
front, since only a line feed right behind it matters to a character. -/
theorem sourceLines_cons_rel {R : List (List Char) → List (List Char) → Prop} {c : Char}
    {r r' : List Char} (next : r.head? = some '\n' ↔ r'.head? = some '\n')
    (related : R (sourceLines r) (sourceLines r'))
    (ends : ∀ L L', R L L' → R ([] :: L) ([] :: L'))
    (goes : ∀ L L', R L L' → R (L.modifyHead (c :: ·)) (L'.modifyHead (c :: ·))) :
    R (sourceLines (c :: r)) (sourceLines (c :: r')) := by
  rw [sourceLines, sourceLines]
  simp only [next]
  split
  next => exact related
  next =>
    split
    next => exact ends _ _ related
    next => exact goes _ _ related

theorem exists_cons_of_sourceLines (a : List Char) :
    ∃ first rest, sourceLines a = first :: rest := by
  induction a with
  | nil => exact ⟨[], [], rfl⟩
  | cons c a ih =>
      obtain ⟨first, rest, lines⟩ := ih
      rw [sourceLines, lines]
      split
      next => exact ⟨first, rest, rfl⟩
      next =>
        split
        next => exact ⟨[], first :: rest, rfl⟩
        next => exact ⟨c :: first, rest, rfl⟩

/-- What stands in front of a text on the same line goes on its first line. -/
theorem sourceLines_append_of_oneLine {a : List Char} (h : OneLine a) (b : List Char) :
    sourceLines (a ++ b) = (sourceLines b).modifyHead (a ++ ·) := by
  induction a with
  | nil =>
      obtain ⟨first, rest, lines⟩ := exists_cons_of_sourceLines b
      rw [List.nil_append, lines]
      rfl
  | cons c rest ih =>
      obtain ⟨plain, others⟩ := oneLine_cons.mp h
      rw [List.cons_append, sourceLines_cons_plain plain, ih others, List.modifyHead_modifyHead]
      rfl

theorem sourceLines_of_oneLine {a : List Char} (h : OneLine a) : sourceLines a = [a] := by
  have lines := sourceLines_append_of_oneLine h []
  rw [List.append_nil] at lines
  rw [lines, sourceLines, List.modifyHead_cons, List.append_nil]

/-- The lines of a text behind which a line feed follows. -/
def endedLines (a : List Char) : List (List Char) :=
  (sourceLines (a ++ ['\n'])).dropLast

theorem sourceLines_append_feed (a b : List Char) :
    ∃ first rest, endedLines a = first :: rest ∧
      sourceLines (a ++ '\n' :: b) = first :: (rest ++ sourceLines b) := by
  have lines : ∃ first rest, sourceLines (a ++ '\n' :: b) = first :: (rest ++ sourceLines b) ∧
      sourceLines (a ++ ['\n']) = first :: (rest ++ [[]]) := by
    induction a with
    | nil => exact ⟨[], [], rfl, rfl⟩
    | cons c a ih =>
        have next : (a ++ '\n' :: b).head? = some '\n' ↔ (a ++ ['\n']).head? = some '\n' := by
          cases a <;> rfl
        refine sourceLines_cons_rel (R := fun L L' => ∃ first rest,
          L = first :: (rest ++ sourceLines b) ∧ L' = first :: (rest ++ [[]])) next ih ?_ ?_
        · rintro _ _ ⟨first, rest, rfl, rfl⟩
          exact ⟨[], first :: rest, rfl, rfl⟩
        · rintro _ _ ⟨first, rest, rfl, rfl⟩
          exact ⟨c :: first, rest, rfl, rfl⟩
  obtain ⟨first, rest, both, alone⟩ := lines
  refine ⟨first, rest, ?_, both⟩
  rw [endedLines, alone, ← List.cons_append, List.dropLast_concat]

theorem endedLines_append_of_oneLine {a : List Char} (h : OneLine a) (b : List Char) :
    endedLines (a ++ b) = (endedLines b).modifyHead (a ++ ·) := by
  obtain ⟨first, rest, ended, lines⟩ := sourceLines_append_feed b []
  rw [ended, endedLines, List.append_assoc, sourceLines_append_of_oneLine h, lines, sourceLines,
    List.modifyHead_cons, List.modifyHead_cons, ← List.cons_append, List.dropLast_concat]

/-- A line feed joins nothing but a carriage return. -/
theorem endedLines_of_getLast? {a : List Char} (other : a.getLast? ≠ some '\r') :
    endedLines a = sourceLines a := by
  have lines : ∃ first rest, sourceLines a = first :: rest ∧
      sourceLines (a ++ ['\n']) = first :: (rest ++ [[]]) := by
    induction a with
    | nil => exact ⟨[], [], rfl, rfl⟩
    | cons c a ih =>
        cases a with
        | nil =>
            have single : c ≠ '\r' := fun same => other (congrArg some same)
            cases ends : isTerminator c with
            | true =>
                exact ⟨[], [[]], sourceLines_cons_end ends single [],
                  sourceLines_cons_end ends single ['\n']⟩
            | false =>
                exact ⟨[c], [], sourceLines_cons_plain ends [],
                  sourceLines_cons_plain ends ['\n']⟩
        | cons d a =>
            rw [List.getLast?_cons_cons] at other
            refine sourceLines_cons_rel (R := fun L L' => ∃ first rest, L = first :: rest ∧
              L' = first :: (rest ++ [[]])) Iff.rfl (ih other) ?_ ?_
            · rintro _ _ ⟨first, rest, rfl, rfl⟩
              exact ⟨[], first :: rest, rfl, rfl⟩
            · rintro _ _ ⟨first, rest, rfl, rfl⟩
              exact ⟨c :: first, rest, rfl, rfl⟩
  obtain ⟨first, rest, alone, both⟩ := lines
  rw [endedLines, both, alone, ← List.cons_append, List.dropLast_concat]

/-- What stands behind a text on the same line goes on its last line. -/
theorem sourceLines_append_oneLine (a : List Char) {b : List Char} (h : OneLine b) :
    ∃ front last, sourceLines a = front ++ [last] ∧
      sourceLines (a ++ b) = front ++ [last ++ b] := by
  induction a with
  | nil => exact ⟨[], [], rfl, sourceLines_of_oneLine h⟩
  | cons c a ih =>
      have next : a.head? = some '\n' ↔ (a ++ b).head? = some '\n' := by
        cases a with
        | nil => exact iff_of_false nofun h.head?_ne
        | cons d a => rfl
      refine sourceLines_cons_rel (R := fun L L' => ∃ front last, L = front ++ [last] ∧
        L' = front ++ [last ++ b]) next ih ?_ ?_
      · rintro _ _ ⟨front, last, rfl, rfl⟩
        exact ⟨[] :: front, last, rfl, rfl⟩
      · rintro _ _ ⟨front, last, rfl, rfl⟩
        cases front with
        | nil => exact ⟨[], c :: last, rfl, rfl⟩
        | cons first front => exact ⟨(c :: first) :: front, last, rfl, rfl⟩

/-! ## Comment lines -/

/-- A character that neither indents a line nor is one of the slashes. -/
def isMark (c : Char) : Bool :=
  !isIndentation c && c != '/'

theorem isMark_iff {c : Char} : isMark c = true ↔ isIndentation c = false ∧ c ≠ '/' := by
  simp [isMark]

theorem isPrefixOf_append_mark (n : Nat) (l : List Char) {c : Char} (mark : isMark c = true)
    (rest : List Char) : (List.replicate n '/').isPrefixOf (l ++ c :: rest) =
      (List.replicate n '/').isPrefixOf l := by
  induction n generalizing l with
  | zero => rfl
  | succ n ih =>
      rw [List.replicate_succ]
      cases l with
      | nil =>
          have different : ('/' == c) = false := beq_false_of_ne (isMark_iff.mp mark).2.symm
          rw [List.nil_append, List.isPrefixOf_cons_cons, different]
          rfl
      | cons d l => rw [List.cons_append, List.isPrefixOf, List.isPrefixOf, ih]

/-- A mark on the line changes nothing in what stands before it. -/
theorem isCommentLine_append_mark (l : List Char) {c : Char} (mark : isMark c = true)
    (rest : List Char) : isCommentLine (l ++ c :: rest) = isCommentLine l := by
  induction l with
  | nil =>
      rw [isCommentLine, List.nil_append, List.dropWhile_cons, (isMark_iff.mp mark).1]
      exact isPrefixOf_append_mark 3 [] mark rest
  | cons d l ih =>
      rw [isCommentLine, isCommentLine, List.cons_append, List.dropWhile_cons,
        List.dropWhile_cons]
      cases isIndentation d with
      | true => exact ih
      | false => exact isPrefixOf_append_mark 3 (d :: l) mark rest

/-- A line is a comment line if it begins like one. -/
theorem isCommentLine_of_indented {indentation : List Char}
    (blank : ∀ c ∈ indentation, isIndentation c = true) (rest : List Char) :
    isCommentLine (indentation ++ List.replicate 3 '/' ++ rest) = true := by
  rw [isCommentLine, List.append_assoc, List.dropWhile_append_of_pos blank]
  simp [List.replicate, isIndentation, isBlank, isTerminator]

theorem contained_of_oneLine {text : String} (h : OneLine text.toList) : Contained text := by
  rw [Contained, sourceLines_of_oneLine h]
  exact nofun

/-- A text that begins with a mark. -/
def BeginsWithMark (text : List Char) : Prop :=
  text.head?.any isMark = true

instance (text : List Char) : Decidable (BeginsWithMark text) :=
  inferInstanceAs (Decidable (text.head?.any isMark = true))

theorem BeginsWithMark.exists_cons {a : List Char} (h : BeginsWithMark a) :
    ∃ c rest, a = c :: rest ∧ isMark c = true := by
  cases a with
  | nil => cases h
  | cons c rest => exact ⟨c, rest, rfl, h⟩

theorem BeginsWithMark.append {a : List Char} (h : BeginsWithMark a) (b : List Char) :
    BeginsWithMark (a ++ b) := by
  obtain ⟨c, rest, rfl, mark⟩ := h.exists_cons
  exact mark

/-- Texts on one line around a text change nothing, if the one behind begins with a mark. -/
theorem contained_around {a b : String} (t : String) (front : OneLine a.toList)
    (back : OneLine b.toList) (mark : BeginsWithMark b.toList) :
    Contained (a ++ t ++ b) ↔ Contained t := by
  obtain ⟨c, rest, spelled, mark⟩ := mark.exists_cons
  obtain ⟨init, last, alone, both⟩ := sourceLines_append_oneLine t.toList back
  rw [Contained, Contained, String.toList_append, String.toList_append, List.append_assoc,
    sourceLines_append_of_oneLine front, alone, both]
  cases init with
  | nil => exact iff_of_true nofun nofun
  | cons first init =>
      rw [List.cons_append, List.cons_append, List.modifyHead_cons, List.tail_cons,
        List.tail_cons, List.forall_mem_append, List.forall_mem_append,
        List.forall_mem_singleton, List.forall_mem_singleton, spelled,
        isCommentLine_append_mark last mark]

/-! ## Escaped marks -/

/-- A way to escape marks: every character stands for itself or is a mark that another mark
stands for, and whatever comes with it. -/
def Escapes (f : Char → List Char) : Prop :=
  ∀ c, f c = [c] ∨ isMark c = true ∧ isTerminator c = false ∧
    ∃ d rest, f c = d :: rest ∧ isMark d = true ∧ OneLine (d :: rest)

section Escapes

variable {f : Char → List Char} (escapes : Escapes f)

include escapes

theorem sourceLines_flatMap (a : List Char) :
    sourceLines (a.flatMap f) = (sourceLines a).map fun l => l.flatMap f := by
  induction a with
  | nil => rfl
  | cons c a ih =>
      rw [List.flatMap_cons]
      rcases escapes c with same | ⟨-, plain, d, rest, spelled, -, oneLine⟩
      · have next : (a.flatMap f).head? = some '\n' ↔ a.head? = some '\n' := by
          cases a with
          | nil => exact Iff.rfl
          | cons d a =>
              rw [List.flatMap_cons]
              rcases escapes d with same | ⟨-, plain, e, rest, spelled, -, oneLine⟩
              · rw [same]
                exact Iff.rfl
              · have different := ne_of_not_isTerminator plain isTerminator_feed
                rw [spelled]
                exact iff_of_false oneLine.head?_ne fun first => different (Option.some.inj first)
        rw [same]
        refine sourceLines_cons_rel (R := fun L L' => L = L'.map fun l => l.flatMap f) next ih ?_ ?_
        · rintro _ L' rfl
          rfl
        · rintro _ L' rfl
          cases L' with
          | nil => rfl
          | cons first others =>
              rw [List.modifyHead_cons, List.map_cons, List.map_cons, List.modifyHead_cons,
                List.flatMap_cons, same]
              rfl
      · obtain ⟨first, others, lines⟩ := exists_cons_of_sourceLines a
        rw [spelled, sourceLines_append_of_oneLine oneLine, ih, sourceLines_cons_plain plain, lines,
          List.map_cons, List.modifyHead_cons, List.modifyHead_cons, List.map_cons,
          List.flatMap_cons, spelled]

theorem isPrefixOf_flatMap (n : Nat) (l : List Char) :
    (List.replicate n '/').isPrefixOf (l.flatMap f) = (List.replicate n '/').isPrefixOf l := by
  induction n generalizing l with
  | zero => rfl
  | succ n ih =>
      cases l with
      | nil => rfl
      | cons c l =>
          rw [List.flatMap_cons]
          rcases escapes c with same | ⟨mark, -, d, rest, spelled, marks, -⟩
          · rw [same, List.singleton_append, List.replicate_succ, List.isPrefixOf_cons_cons,
              List.isPrefixOf_cons_cons, ih]
          · rw [spelled, List.cons_append]
            exact (isPrefixOf_append_mark (n + 1) [] marks _).trans
              (isPrefixOf_append_mark (n + 1) [] mark _).symm

theorem isCommentLine_flatMap (l : List Char) : isCommentLine (l.flatMap f) = isCommentLine l := by
  induction l with
  | nil => rfl
  | cons c l ih =>
      rw [List.flatMap_cons]
      rcases escapes c with same | ⟨mark, -, d, rest, spelled, marks, -⟩
      · have slashes := isPrefixOf_flatMap escapes 3 (c :: l)
        rw [List.flatMap_cons, same] at slashes
        rw [same, isCommentLine, isCommentLine, List.singleton_append, List.dropWhile_cons,
          List.dropWhile_cons]
        cases isIndentation c with
        | true => exact ih
        | false => exact slashes
      · rw [spelled, List.cons_append]
        exact (isCommentLine_append_mark [] marks _).trans
          (isCommentLine_append_mark [] mark _).symm

theorem contained_escaped (text : String) :
    Contained (String.ofList (text.toList.flatMap f)) ↔ Contained text := by
  rw [Contained, Contained, String.toList_ofList, sourceLines_flatMap escapes, ← List.map_tail,
    List.forall_mem_map]
  simp only [isCommentLine_flatMap escapes]

end Escapes

theorem escapes_quotes : Escapes fun c => if c = '"' then ['\\', '"'] else [c] := by
  intro c
  by_cases quote : c = '"'
  · subst quote
    exact .inr ⟨by decide, by decide, '\\', ['"'], rfl, by decide, by decide⟩
  · exact .inl (if_neg quote)

theorem escapes_xmlEscape : Escapes xmlEscape := by
  intro c
  unfold xmlEscape
  split
  next => exact .inr ⟨by decide, by decide, '&', "lt;".toList, rfl, by decide, by decide⟩
  next => exact .inr ⟨by decide, by decide, '&', "gt;".toList, rfl, by decide, by decide⟩
  next => exact .inr ⟨by decide, by decide, '&', "amp;".toList, rfl, by decide, by decide⟩
  next => exact .inr ⟨by decide, by decide, '&', "apos;".toList, rfl, by decide, by decide⟩
  next => exact .inr ⟨by decide, by decide, '&', "quot;".toList, rfl, by decide, by decide⟩
  next => exact .inl rfl

/-! ## Texts that are written as lines -/

/-- A text that is contained where a line feed stands right behind it. -/
def ContainedLine (text : String) : Prop :=
  ∀ l ∈ (endedLines text.toList).tail, isCommentLine l = true

theorem containedLine_iff {text : String} (other : text.toList.getLast? ≠ some '\r') :
    ContainedLine text ↔ Contained text := by
  rw [ContainedLine, endedLines_of_getLast? other, Contained]

theorem OneLine.getLast?_ne {a : List Char} (h : OneLine a) : a.getLast? ≠ some '\r' := by
  intro last
  exact ne_of_not_isTerminator (h '\r' (List.mem_of_getLast? last)) isTerminator_return rfl

theorem containedLine_of_oneLine {text : String} (h : OneLine text.toList) :
    ContainedLine text :=
  (containedLine_iff h.getLast?_ne).mpr (contained_of_oneLine h)

theorem containedLine_around {a b : String} (t : String) (front : OneLine a.toList)
    (back : OneLine b.toList) (mark : BeginsWithMark b.toList) :
    ContainedLine (a ++ t ++ b) ↔ Contained t := by
  rw [containedLine_iff, contained_around t front back mark]
  obtain ⟨c, rest, spelled, -⟩ := mark.exists_cons
  have last := back.getLast?_ne
  rw [spelled] at last
  rwa [String.toList_append, spelled, List.getLast?_append_of_ne_nil _ (List.cons_ne_nil c rest)]

theorem getLast?_trimEnd_ne {c : Char} (blank : isBlank c = true) (a : List Char) :
    (trimEnd a).getLast? ≠ some c := by
  rw [trimEnd, List.getLast?_reverse]
  intro first
  have stops := List.head?_dropWhile_not isBlank a.reverse
  rw [first] at stops
  exact Bool.false_ne_true (stops.symm.trans blank)

theorem mem_of_mem_dropOuterEmpty {ls : List (List Char)} {l : List Char}
    (member : l ∈ dropOuterEmpty ls) : l ∈ ls := by
  have inside := (List.dropWhile_sublist _).subset (List.mem_reverse.mp member)
  exact (List.dropWhile_sublist _).subset (List.mem_reverse.mp inside)

theorem exists_of_mem_trimmedLines {text line : String} (member : line ∈ trimmedLines text) :
    ∃ l ∈ lines text.toList, line.toList = trim l := by
  obtain ⟨core, kept, rfl⟩ := List.mem_map.mp member
  obtain ⟨l, inside, rfl⟩ := List.mem_map.mp (mem_of_mem_dropOuterEmpty kept)
  exact ⟨l, inside, String.toList_ofList⟩

theorem getLast?_ne_of_mem_trimmedLines {text line : String}
    (member : line ∈ trimmedLines text) : line.toList.getLast? ≠ some '\r' := by
  obtain ⟨l, -, spelled⟩ := exists_of_mem_trimmedLines member
  rw [spelled]
  exact getLast?_trimEnd_ne (by decide) (trimStart l)

/-- A trimmed line does not end in a carriage return. -/
theorem containedLine_of_mem_trimmedLines {text line : String}
    (member : line ∈ trimmedLines text) : ContainedLine line ↔ Contained line :=
  containedLine_iff (getLast?_ne_of_mem_trimmedLines member)

namespace Line

/-- What a line shows in front of its line feed. -/
def shown (l : Line) : List Char :=
  if l.text.isEmpty then [] else (indentation l.level).toList ++ l.text.toList

theorem toList_render (l : Line) : l.render.toList = l.shown ++ ['\n'] := by
  rw [render, shown]
  split
  next => rfl
  next => rw [String.toList_append, String.toList_append]; rfl

end Line

theorem renderLines_cons (l : Line) (ls : List Line) :
    renderLines (l :: ls) = l.render ++ renderLines ls :=
  String.join_cons

theorem renderLines_append (ls more : List Line) :
    renderLines (ls ++ more) = renderLines ls ++ renderLines more := by
  induction ls with
  | nil => exact String.empty_append.symm
  | cons l ls ih =>
      rw [List.cons_append, renderLines_cons, ih, renderLines_cons, String.append_assoc]

/-- The lines of written text are those of what is written, one after the other. -/
theorem sourceLines_renderLines (ls : List Line) :
    (sourceLines (renderLines ls).toList).dropLast = ls.flatMap fun l => endedLines l.shown := by
  induction ls with
  | nil => rfl
  | cons l ls ih =>
      have written : (renderLines (l :: ls)).toList =
          l.shown ++ '\n' :: (renderLines ls).toList := by
        rw [renderLines_cons, String.toList_append, l.toList_render, List.append_assoc,
          List.singleton_append]
      obtain ⟨first, rest, ended, lines⟩ := sourceLines_append_feed l.shown (renderLines ls).toList
      obtain ⟨next, others, more⟩ := exists_cons_of_sourceLines (renderLines ls).toList
      rw [written, lines, List.flatMap_cons, ended, ← ih, ← List.cons_append,
        List.dropLast_append_of_ne_nil (by rw [more]; exact List.cons_ne_nil _ _)]

end LearningStore.Text
