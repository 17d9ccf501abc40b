import LearningStore.Proofs.Text.SteadyRows
import LearningStore.Text.Quoted

/-!
# Steady texts

Generated lines have texts of a schema in them, with marks and words around.  A row of the whole is
put together from the last row of one part and the first row of the next.  A text follows others if
their rows stay steady in front of it: what starts with a symbol does, and a quiet text behind a
blank.
-/

namespace LearningStore.Text

variable {inWord : Char → Bool}

/-! ## Texts that go on -/

/-- Texts that can be put behind steady rows. -/
def Follows (inWord : Char → Bool) (t : List Char) : Prop :=
  ∀ y ys, rows t = y :: ys →
    (∀ x, Steady inWord x → Steady inWord (x ++ y)) ∧ ∀ r ∈ ys, Steady inWord r

/-- Texts in which every row is steady. -/
def SteadyText (inWord : Char → Bool) (t : List Char) : Prop :=
  ∀ r ∈ rows t, Steady inWord r

section Follows

variable {a b t : List Char} {c : Char}

theorem follows_nil : Follows inWord [] := by
  intro y ys cut
  cases show [[]] = y :: ys from cut
  refine ⟨fun x steady => ?_, nofun⟩
  rw [List.append_nil]
  exact steady

theorem Follows.append (first : Follows inWord a) (second : Follows inWord b) :
    Follows inWord (a ++ b) := by
  intro z zs cut
  obtain ⟨xs, x, front, glue⟩ := rows_append a
  obtain ⟨y, ys, back⟩ := exists_cons_of_rows b
  obtain ⟨joins, behind⟩ := second y ys back
  rw [glue b y ys back] at cut
  cases xs with
  | nil =>
      obtain ⟨rfl, rfl⟩ := List.cons.inj cut
      refine ⟨fun w steady => ?_, behind⟩
      rw [← List.append_assoc]
      exact joins _ ((first x [] front).1 w steady)
  | cons w xs =>
      obtain ⟨rfl, rfl⟩ := List.cons.inj cut
      obtain ⟨before, others⟩ := first w (xs ++ [x]) front
      refine ⟨before, List.forall_mem_append.mpr ⟨fun r inside => ?_, ?_⟩⟩
      · exact others r (List.mem_append_left _ inside)
      · exact List.forall_mem_cons.mpr
          ⟨joins x (others x (List.mem_append_right xs List.mem_cons_self)), behind⟩

theorem follows_flatten {parts : List (List Char)} (each : ∀ part ∈ parts, Follows inWord part) :
    Follows inWord parts.flatten := by
  induction parts with
  | nil => exact follows_nil
  | cons part rest ih =>
      obtain ⟨here, others⟩ := List.forall_mem_cons.mp each
      exact here.append (ih others)

theorem Follows.steady (follows : Follows inWord t) : SteadyText inWord t := by
  obtain ⟨y, ys, cut⟩ := exists_cons_of_rows t
  obtain ⟨joins, behind⟩ := follows y ys cut
  rw [SteadyText, cut, List.forall_mem_cons]
  exact ⟨joins [] (steady_of_isIdle rfl), behind⟩

theorem SteadyText.append (steady : SteadyText inWord a) (follows : Follows inWord b) :
    SteadyText inWord (a ++ b) := by
  obtain ⟨xs, x, front, glue⟩ := rows_append a
  obtain ⟨y, ys, back⟩ := exists_cons_of_rows b
  obtain ⟨joins, behind⟩ := follows y ys back
  rw [SteadyText, front, List.forall_mem_append, List.forall_mem_singleton] at steady
  rw [SteadyText, glue b y ys back, List.forall_mem_append, List.forall_mem_cons]
  exact ⟨steady.1, joins x steady.2, behind⟩

theorem tail_rows_cons (plain : c ≠ '\n') (t : List Char) :
    (rows (c :: t)).tail = (rows t).tail := by
  obtain ⟨y, ys, back⟩ := exists_cons_of_rows t
  rw [rows_cons plain back, back]
  rfl

theorem follows_cons_symbol (ends : EndsAtBlanks inWord) (symbol : isSymbol c = true)
    (behind : ∀ r ∈ (rows t).tail, Steady inWord r) : Follows inWord (c :: t) := by
  intro z zs cut
  obtain ⟨y, ys, back⟩ := exists_cons_of_rows t
  have plain : c ≠ '\n' := by
    rintro rfl
    cases symbol
  rw [rows_cons plain back] at cut
  obtain ⟨rfl, rfl⟩ := List.cons.inj cut
  rw [back] at behind
  exact ⟨fun x steady => steady.append_symbol ends symbol, behind⟩

theorem Quiet.follows_symbol (ends : EndsAtBlanks inWord) (symbol : isSymbol c = true)
    (quiet : Quiet inWord t) : Follows inWord (c :: t) :=
  follows_cons_symbol ends symbol fun r later => quiet.steady ends r (List.mem_of_mem_tail later)

theorem Quiet.follows_blank (ends : EndsAtBlanks inWord) (quiet : Quiet inWord t) :
    Follows inWord (' ' :: t) := by
  intro z zs cut
  obtain ⟨y, ys, back⟩ := exists_cons_of_rows t
  have steady := quiet.steady ends
  have mentions := fun r => quiet.not_mentions_of_mem_rows ends (r := r)
  rw [rows_cons (by decide) back] at cut
  obtain ⟨rfl, rfl⟩ := List.cons.inj cut
  rw [back, List.forall_mem_cons] at steady
  refine ⟨fun x before => before.append_blank ends rfl steady.1.noGo ?_, steady.2⟩
  exact mentions y (back ▸ List.mem_cons_self)

end Follows

/-! ## Quoted texts -/

section Quoted

variable {t r : List Char}

theorem rows_doubleApostrophes (t : List Char) :
    rows (doubleApostrophes t) = (rows t).map doubleApostrophes := by
  induction t with
  | nil => rfl
  | cons c t ih =>
      obtain ⟨q, qs, back⟩ := exists_cons_of_rows t
      rw [back] at ih
      by_cases feed : c = '\n'
      · rw [feed, rows_cons_feed, back, doubleApostrophes, if_neg (by decide), rows_cons_feed, ih]
        rfl
      · rw [rows_cons feed back, List.map_cons, doubleApostrophes, doubleApostrophes]
        split
        next => rw [rows_cons (by decide) (rows_cons (by decide) ih)]
        next => rw [rows_cons feed ih]

/-- What has no apostrophe in it and starts a text with doubled ones starts the text itself. -/
theorem exists_of_doubleApostrophes_eq {p b : List Char} (plain : '\'' ∉ p)
    (same : doubleApostrophes t = p ++ b) : ∃ e, t = p ++ e ∧ doubleApostrophes e = b := by
  induction p generalizing t with
  | nil => exact ⟨t, rfl, same⟩
  | cons d p ih =>
      obtain ⟨other, others⟩ := not_or.mp (mt List.mem_cons.mpr plain)
      cases t with
      | nil => cases same
      | cons c t =>
          rw [doubleApostrophes] at same
          split at same
          next =>
            obtain ⟨here, -⟩ := List.cons.inj same
            exact absurd here other
          next =>
            obtain ⟨rfl, behind⟩ := List.cons.inj same
            obtain ⟨e, rfl, doubled⟩ := ih others behind
            exact ⟨e, rfl, doubled⟩

theorem head?_doubleApostrophes (t : List Char) : (doubleApostrophes t).head? = t.head? := by
  cases t with
  | nil => rfl
  | cons c t =>
      rw [doubleApostrophes]
      split
      next quote => rw [quote]; rfl
      next => rfl

theorem Steady.doubleApostrophes (ends : EndsAtBlanks inWord) (steady : Steady inWord r) :
    Steady inWord (doubleApostrophes r) := by
  have blanks {a : List Char} (blank : Blanks a) : '\'' ∉ a := fun inside =>
    absurd (blank _ inside) (by decide)
  have quote : isSymbol '\'' = true := rfl
  constructor
  · rw [Bool.eq_false_iff]
    intro go
    obtain ⟨a, word, b, same, front, back, spelled⟩ := isGo_iff.mp go
    have outside := notMem_of_spelled isSymbol_lowerLetter spelled (by decide) quote
    have plain : '\'' ∉ a ++ word ++ b := by
      rw [List.mem_append, List.mem_append, not_or, not_or]
      exact ⟨⟨blanks front, outside⟩, blanks back⟩
    rw [← List.append_nil (a ++ word ++ b)] at same
    obtain ⟨e, rfl, doubled⟩ := exists_of_doubleApostrophes_eq plain same
    have empty : e = [] := by
      rw [← List.head?_eq_none_iff, ← head?_doubleApostrophes, doubled]
      rfl
    have here : isGo (a ++ word ++ b ++ e) = true := by
      rw [empty, List.append_nil]
      exact isGo_iff.mpr ⟨a, word, b, rfl, front, back, spelled⟩
    rw [steady.noGo] at here
    cases here
  · rw [Bool.eq_false_iff]
    intro starts
    obtain ⟨a, word, b, same, front, spelled, apart⟩ := (startsFunction_iff ends).mp starts
    have outside := notMem_of_spelled isSymbol_lowerLetter spelled (by decide) quote
    have plain : '\'' ∉ a ++ word := by
      rw [List.mem_append, not_or]
      exact ⟨blanks front, outside⟩
    obtain ⟨e, rfl, rfl⟩ := exists_of_doubleApostrophes_eq plain same
    rw [head?_doubleApostrophes] at apart
    have here := (startsFunction_iff ends).mpr ⟨a, word, e, rfl, front, spelled, apart⟩
    rw [steady.noStart] at here
    cases here

theorem Quiet.follows_sqlString (ends : EndsAtBlanks inWord) {value : String}
    (quiet : Quiet inWord value.toList) : Follows inWord (sqlString value).toList := by
  have inner : SteadyText inWord (doubleApostrophes value.toList) := by
    rw [SteadyText, rows_doubleApostrophes, List.forall_mem_map]
    exact fun r member => (quiet.steady ends r member).doubleApostrophes ends
  have last : Follows inWord ['\''] := follows_cons_symbol ends rfl nofun
  rw [sqlString, String.toList_ofList, List.cons_append]
  exact follows_cons_symbol ends rfl fun r later => inner.append last r (List.mem_of_mem_tail later)

end Quoted

/-! ## Fronts of lines -/

/-- Whether two texts differ in a character that both have, when the first is in small letters. -/
def departs (p word : List Char) : Bool :=
  (List.zip p word).any fun pair => lowerLetter pair.1 != pair.2

/-- A beginning on one line that can be that of neither word that matters at the start of a
line. -/
def isFront (p : List Char) : Bool :=
  p.head?.any (fun c => !isBlank c) && !p.contains '\n' && departs p "go".toList &&
    departs p "create function".toList

theorem departs_eq_false {p rest word b letters : List Char} (same : p ++ rest = word ++ b)
    (spelled : word.map lowerLetter = letters) : departs p letters = false := by
  subst spelled
  induction p generalizing word with
  | nil => rfl
  | cons c p ih =>
      cases word with
      | nil => rfl
      | cons d word =>
          obtain ⟨rfl, behind⟩ := List.cons.inj same
          have others := ih behind
          rw [departs] at others ⊢
          rw [List.map_cons, List.zip_cons_cons, List.any_cons, others, Bool.or_false]
          exact bne_self_eq_false _

theorem isPrefixOf_eq_false {word start letters : List Char} (other : departs word letters = true)
    (spelled : start.map lowerLetter = letters) (rest : List Char) :
    start.isPrefixOf (word ++ rest) = false := by
  rw [Bool.eq_false_iff, ne_eq, List.isPrefixOf_iff_prefix]
  rintro ⟨b, same⟩
  rw [departs_eq_false same.symm spelled] at other
  cases other

/-- A text that starts with no blank starts with a word that has only blanks in front of it. -/
theorem eq_append_of_blanks {p rest a t : List Char} (solid : p.head?.any (!isBlank ·) = true)
    (front : Blanks a) (same : p ++ rest = a ++ t) : p ++ rest = t := by
  cases a with
  | nil => exact same
  | cons d a =>
      cases p with
      | nil => cases solid
      | cons c p =>
          obtain ⟨rfl, -⟩ := List.cons.inj same
          rw [List.head?_cons, Option.any_some, front c List.mem_cons_self] at solid
          cases solid

theorem isGo_of_departs {p : List Char} (solid : p.head?.any (!isBlank ·) = true)
    (other : departs p "go".toList = true) (rest : List Char) : isGo (p ++ rest) = false := by
  rw [Bool.eq_false_iff]
  intro go
  obtain ⟨a, word, b, same, blank, -, spelled⟩ := isGo_iff.mp go
  rw [List.append_assoc] at same
  rw [departs_eq_false (eq_append_of_blanks solid blank same) spelled] at other
  cases other

theorem startsFunction_of_departs (ends : EndsAtBlanks inWord) {p : List Char}
    (solid : p.head?.any (!isBlank ·) = true)
    (other : departs p "create function".toList = true) (rest : List Char) :
    startsFunction inWord (p ++ rest) = false := by
  rw [Bool.eq_false_iff]
  intro starts
  obtain ⟨a, word, b, same, blank, spelled, -⟩ := (startsFunction_iff ends).mp starts
  rw [List.append_assoc] at same
  rw [departs_eq_false (eq_append_of_blanks solid blank same) spelled] at other
  cases other

theorem isFront_of_isSymbol {c : Char} (symbol : isSymbol c = true) : isFront [c] = true := by
  obtain ⟨other, solid⟩ := isSymbol_iff.mp symbol
  have feed : c ≠ '\n' := by
    rintro rfl
    cases solid
  have letter {d : Char} (isLetter : isLetter d = true) : lowerLetter c ≠ d := by
    rintro rfl
    rw [isLetter_lowerLetter, other] at isLetter
    cases isLetter
  have first : lowerLetter c ≠ 'g' ∧ lowerLetter c ≠ 'c' := ⟨letter rfl, letter rfl⟩
  simp [isFront, departs, solid, Ne.symm feed, first]

/-- Text on one line that does not begin with a word that matters at the start of a line. -/
def Fronted (t : List Char) : Prop :=
  ∃ p rest, t = p ++ rest ∧ isFront p = true ∧ '\n' ∉ rest

theorem fronted_of_isFront {p : List Char} (front : isFront p = true) : Fronted p :=
  ⟨p, [], (List.append_nil p).symm, front, nofun⟩

/-- The same for a beginning that is spelled out, with the words that matter spelled out, too. -/
theorem fronted_ofList {chars : List Char}
    (front : (chars.head?.any (fun c => !isBlank c) && !chars.contains '\n' &&
      departs chars ['g', 'o'] && departs chars ['c', 'r', 'e', 'a', 't', 'e', ' ', 'f', 'u', 'n',
        'c', 't', 'i', 'o', 'n']) = true) :
    Fronted (String.ofList chars).toList := by
  have go : "go".toList = ['g', 'o'] := String.toList_ofList
  have create : "create function".toList =
      ['c', 'r', 'e', 'a', 't', 'e', ' ', 'f', 'u', 'n', 'c', 't', 'i', 'o', 'n'] :=
    String.toList_ofList
  rw [String.toList_ofList]
  refine fronted_of_isFront ?_
  rw [isFront, go, create]
  exact front

theorem fronted_cons_symbol {c : Char} {rest : List Char} (symbol : isSymbol c = true)
    (plain : '\n' ∉ rest) : Fronted (c :: rest) :=
  ⟨[c], rest, rfl, isFront_of_isSymbol symbol, plain⟩

theorem Fronted.append {a b : List Char} (fronted : Fronted a) (plain : '\n' ∉ b) :
    Fronted (a ++ b) := by
  obtain ⟨p, rest, rfl, front, first⟩ := fronted
  refine ⟨p, rest ++ b, List.append_assoc p rest b, front, ?_⟩
  rw [List.mem_append, not_or]
  exact ⟨first, plain⟩

theorem Fronted.append_row {a b : String} (fronted : Fronted a.toList) (row : OneRow b) :
    Fronted (a ++ b).toList := by
  rw [String.toList_append]
  exact fronted.append row

/-- A text on one row goes between a beginning and an end that is spelled out. -/
theorem Fronted.around {a text : String} {b : List Char} (fronted : Fronted a.toList)
    (row : OneRow text) (plain : '\n' ∉ b) : Fronted (a ++ text ++ String.ofList b).toList :=
  (fronted.append_row row).append_row (oneRow_ofList plain)

theorem OneRow.sqlString {text : String} (row : OneRow text) : OneRow (sqlString text) := by
  have split := rows_doubleApostrophes text.toList
  rw [rows_single row] at split
  have doubled : doubleApostrophes text.toList ∈ rows (doubleApostrophes text.toList) := by
    rw [split]
    exact List.mem_cons_self
  rw [OneRow, Text.sqlString, String.toList_ofList, List.cons_append, List.mem_cons,
    List.mem_append, not_or, not_or]
  exact ⟨by decide, feed_notMem_of_mem_rows doubled, by decide⟩

theorem fronted_sqlString {text : String} (row : OneRow text) :
    Fronted (Text.sqlString text).toList := by
  have plain := row.sqlString
  rw [OneRow, Text.sqlString, String.toList_ofList, List.cons_append] at plain
  rw [Text.sqlString, String.toList_ofList, List.cons_append]
  exact fronted_cons_symbol rfl (mt (List.mem_cons_of_mem _) plain)

theorem Fronted.steady (ends : EndsAtBlanks inWord) {t : List Char} (fronted : Fronted t) :
    SteadyText inWord t := by
  obtain ⟨p, rest, rfl, front, plain⟩ := fronted
  simp only [isFront, Bool.and_eq_true_iff] at front
  obtain ⟨⟨⟨solid, single⟩, noGo⟩, noStart⟩ := front
  have whole : '\n' ∉ p ++ rest := by
    rw [List.mem_append, not_or]
    exact ⟨by simpa using single, plain⟩
  rw [SteadyText, rows_single whole, List.forall_mem_singleton]
  exact ⟨isGo_of_departs solid noGo rest, startsFunction_of_departs ends solid noStart rest⟩

/-! ## Steady lines -/

/-- Lines whose texts have steady rows, however far they are indented. -/
def SteadyLines (inWord : Char → Bool) (ls : List Line) : Prop :=
  ∀ l ∈ ls, SteadyText inWord l.text.toList

section Lines

variable {ls more : List Line}

theorem steadyLines_append :
    SteadyLines inWord (ls ++ more) ↔ SteadyLines inWord ls ∧ SteadyLines inWord more :=
  List.forall_mem_append

theorem steadyLines_cons {l : Line} :
    SteadyLines inWord (l :: ls) ↔ SteadyText inWord l.text.toList ∧ SteadyLines inWord ls :=
  List.forall_mem_cons

theorem steadyLines_nil : SteadyLines inWord [] :=
  nofun

theorem steadyLines_of_fronts (ends : EndsAtBlanks inWord)
    (fronts : ls.all (fun l => isFront l.text.toList) = true) : SteadyLines inWord ls :=
  fun l inside => (fronted_of_isFront (List.all_eq_true.mp fronts l inside)).steady ends

theorem steadyLines_indented : SteadyLines inWord (indented ls) ↔ SteadyLines inWord ls :=
  List.forall_mem_map

/-- Blanks in front of the first row do not change what it is. -/
theorem SteadyText.behind_blanks {a t : List Char} (steady : SteadyText inWord t)
    (blank : Blanks a) (plain : '\n' ∉ a) : SteadyText inWord (a ++ t) := by
  obtain ⟨y, ys, back⟩ := exists_cons_of_rows t
  rw [SteadyText, back, List.forall_mem_cons] at steady
  rw [SteadyText, rows_append_of_notMem plain back, List.forall_mem_cons]
  refine ⟨steady.1.congr ?_, steady.2⟩
  rw [← trim_around (b := []) y blank nofun, List.append_nil]

theorem SteadyLines.rows (steady : SteadyLines inWord ls) :
    ∀ r ∈ ls.flatMap Line.rows, Steady inWord r := by
  intro r member
  obtain ⟨l, inside, found⟩ := List.mem_flatMap.mp member
  obtain ⟨q, row, rfl⟩ := List.mem_map.mp found
  have shown : SteadyText inWord l.shown := by
    unfold Line.shown
    split
    next => exact follows_nil.steady
    next =>
      rw [Line.indentation, String.toList_ofList]
      refine (steady l inside).behind_blanks (blanks_replicate _) fun feed => ?_
      exact absurd (List.eq_of_mem_replicate feed) (by decide)
  exact (shown q row).congr (trim_withoutReturn q).symm

/-- The lines of a text with steady rows are steady. -/
theorem steadyLines_statementLines {text : String} (steady : SteadyText inWord text.toList) :
    SteadyLines inWord (statementLines text) := by
  intro l member
  obtain ⟨core, inside, rfl⟩ := List.mem_map.mp member
  obtain ⟨r, row, spelled⟩ := exists_row_of_mem_trimmedLines inside
  rw [line, SteadyText, rows_single (oneRow_of_mem_trimmedLines inside),
    List.forall_mem_singleton]
  refine (steady r row).congr ?_
  rw [spelled, trim_trim]

end Lines

end LearningStore.Text
