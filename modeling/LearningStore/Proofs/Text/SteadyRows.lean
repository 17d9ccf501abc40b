import LearningStore.Proofs.Text.Batches
import LearningStore.Proofs.Text.Rows

/-!
# Steady rows

A row neither ends a batch nor starts a function if its front does neither and it goes on with a
symbol, or with a blank and a text that does not mention functions.  A text is quiet if no line of
it ends a batch and it does not mention functions at all.
-/

namespace LearningStore.Text

variable {inWord : Char → Bool}

/-! ## Words -/

/-- No blank goes on with a word. -/
def EndsAtBlanks (inWord : Char → Bool) : Prop :=
  ∀ c, isBlank c = true → inWord c = false

/-- A character that is neither a letter nor a blank. -/
def isSymbol (c : Char) : Bool :=
  !isLetter c && !isBlank c

theorem not_isBlank_of_isLetter {c : Char} (letter : isLetter c = true) : isBlank c = false := by
  have code : 65 ≤ c.toNat ∧ c.toNat ≤ 122 := by
    rcases Bool.or_eq_true_iff.mp letter with capital | small
    · obtain ⟨low, high⟩ := Bool.and_eq_true_iff.mp capital
      have above : 65 ≤ c.toNat := of_decide_eq_true low
      have below : c.toNat ≤ 90 := of_decide_eq_true high
      exact ⟨above, by omega⟩
    · obtain ⟨low, high⟩ := Bool.and_eq_true_iff.mp small
      have above : 97 ≤ c.toNat := of_decide_eq_true low
      have below : c.toNat ≤ 122 := of_decide_eq_true high
      exact ⟨by omega, below⟩
  simp only [isBlank, Bool.or_eq_false_iff, Bool.and_eq_false_iff, decide_eq_false_iff_not,
    beq_eq_false_iff_ne]
  omega

theorem endsAtBlanks_isLetter : EndsAtBlanks isLetter := by
  intro c blank
  rw [Bool.eq_false_iff]
  intro letter
  rw [not_isBlank_of_isLetter letter] at blank
  cases blank

theorem isLetter_lowerLetter (c : Char) : isLetter (lowerLetter c) = isLetter c := by
  unfold lowerLetter
  split
  next capital =>
    have low : 65 ≤ c.toNat := capital.1
    have high : c.toNat ≤ 90 := capital.2
    have valid : (c.toNat + 32).isValidChar := .inl (by omega)
    have raised : (Char.ofNat (c.toNat + 32)).toNat = c.toNat + 32 := by
      rw [Char.ofNat, dif_pos valid]
      rfl
    have small : 'a' ≤ Char.ofNat (c.toNat + 32) ∧ Char.ofNat (c.toNat + 32) ≤ 'z' := by
      constructor
      · exact (by omega : 97 ≤ (Char.ofNat (c.toNat + 32)).toNat)
      · exact (by omega : (Char.ofNat (c.toNat + 32)).toNat ≤ 122)
    simp [isLetter, small.1, small.2, capital.1, capital.2]
  next => rfl

theorem lowerLetter_of_not_isLetter {c : Char} (other : isLetter c = false) :
    lowerLetter c = c := by
  refine if_neg ?_
  rintro ⟨low, high⟩
  simp [isLetter, low, high] at other

theorem isBlank_lowerLetter (c : Char) : isBlank (lowerLetter c) = isBlank c := by
  cases letter : isLetter c with
  | true =>
      rw [not_isBlank_of_isLetter letter]
      exact not_isBlank_of_isLetter (by rw [isLetter_lowerLetter, letter])
  | false => rw [lowerLetter_of_not_isLetter letter]

theorem isSymbol_lowerLetter (c : Char) : isSymbol (lowerLetter c) = isSymbol c := by
  rw [isSymbol, isLetter_lowerLetter, isBlank_lowerLetter, isSymbol]

theorem isSymbol_iff {c : Char} : isSymbol c = true ↔ isLetter c = false ∧ isBlank c = false := by
  rw [isSymbol, Bool.and_eq_true_iff, Bool.not_eq_true', Bool.not_eq_true']

/-- What holds of the characters of a word in small letters holds of those of the word. -/
theorem forall_of_spelled {p : Char → Bool} (kept : ∀ c, p (lowerLetter c) = p c)
    {word letters : List Char} (spelled : word.map lowerLetter = letters)
    (free : letters.any p = false) (c : Char) (inside : c ∈ word) : p c = false := by
  have small : lowerLetter c ∈ letters := spelled ▸ List.mem_map_of_mem inside
  rw [← kept, ← Bool.not_eq_true]
  exact List.any_eq_false.mp free _ small

theorem notMem_of_spelled {p : Char → Bool} (kept : ∀ c, p (lowerLetter c) = p c)
    {word letters : List Char} (spelled : word.map lowerLetter = letters)
    (free : letters.any p = false) {c : Char} (marked : p c = true) : c ∉ word := by
  intro inside
  rw [forall_of_spelled kept spelled free c inside] at marked
  cases marked

/-- A word stands in front of a character that it does not have, or behind it. -/
theorem split_word {a word b x y : List Char} {c : Char} (outside : c ∉ word)
    (same : a ++ word ++ b = x ++ c :: y) :
    (∃ m, x = a ++ word ++ m ∧ b = m ++ c :: y) ∨ ∃ m, a = x ++ c :: m ∧ y = m ++ word ++ b := by
  rcases List.append_eq_append_iff.mp same with ⟨m, front, back⟩ | ⟨m, front, back⟩
  · exact .inl ⟨m, front, back⟩
  · cases m with
    | nil =>
        rw [List.append_nil] at front
        exact .inl ⟨[], by rw [List.append_nil, front], back.symm⟩
    | cons d m =>
        obtain ⟨rfl, rest⟩ := List.cons.inj back
        rcases List.append_eq_append_iff.mp front with ⟨n, -, inner⟩ | ⟨n, before, inner⟩
        · rw [inner] at outside
          exact absurd (List.mem_append_right n List.mem_cons_self) outside
        · cases n with
          | nil =>
              rw [← show c :: m = word from inner] at outside
              exact absurd List.mem_cons_self outside
          | cons e n =>
              obtain ⟨rfl, behind⟩ := List.cons.inj inner
              refine .inr ⟨n, before, ?_⟩
              rw [rest, behind]
              rfl

/-! ## Lines by their words -/

variable {l : List Char}

theorem isGo_iff : isGo l = true ↔ ∃ a word b, l = a ++ word ++ b ∧ Blanks a ∧ Blanks b ∧
    word.map lowerLetter = "go".toList := by
  rw [isGo, beq_iff_eq]
  constructor
  · intro spelled
    obtain ⟨a, b, whole, front, back⟩ := exists_trim l
    exact ⟨a, trim l, b, whole, front, back, spelled⟩
  · rintro ⟨a, word, b, rfl, front, back, spelled⟩
    have solid := forall_of_spelled isBlank_lowerLetter spelled (by decide)
    rw [trim_around word front back, trim_eq_self_of_forall solid]
    exact spelled

theorem solid_head_of_spelled {word target : List Char} (spelled : word.map lowerLetter = target)
    (solid : ∀ c ∈ target.head?, isBlank c = false) : ∀ c ∈ word.head?, isBlank c = false := by
  intro c first
  rw [← isBlank_lowerLetter]
  refine solid _ ?_
  rw [← spelled, List.head?_map, Option.mem_def.mp first]
  rfl

theorem solid_last_of_spelled {word target : List Char} (spelled : word.map lowerLetter = target)
    (solid : ∀ c ∈ target.getLast?, isBlank c = false) :
    ∀ c ∈ word.getLast?, isBlank c = false := by
  intro c last
  rw [← isBlank_lowerLetter]
  refine solid _ ?_
  rw [← spelled, List.getLast?_map, Option.mem_def.mp last]
  rfl

theorem startsFunction_iff (ends : EndsAtBlanks inWord) : startsFunction inWord l = true ↔
    ∃ a word b, l = a ++ word ++ b ∧ Blanks a ∧
      word.map lowerLetter = "create function".toList ∧ ∀ c ∈ b.head?, inWord c = false := by
  rw [startsFunction, Bool.and_eq_true_iff, beq_iff_eq]
  constructor
  · rintro ⟨spelled, apart⟩
    obtain ⟨a, b, whole, front, back⟩ := exists_trim l
    refine ⟨a, (trim l).take 15, (trim l).drop 15 ++ b, ?_, front, spelled, fun c first => ?_⟩
    · rw [List.append_assoc, ← List.append_assoc ((trim l).take 15), List.take_append_drop,
        ← List.append_assoc, ← whole]
    · rw [List.head?_append, Option.mem_def, Option.or_eq_some_iff] at first
      rcases first with here | ⟨-, behind⟩
      · rw [here] at apart
        simpa using apart
      · exact ends c (back c (List.mem_of_mem_head? behind))
  · rintro ⟨a, word, b, rfl, front, spelled, apart⟩
    have long : word.length = 15 := by
      rw [← List.length_map (f := lowerLetter), spelled]
      rfl
    have first := solid_head_of_spelled spelled fun c first => Option.some.inj first ▸ rfl
    have last := solid_last_of_spelled spelled fun c last => Option.some.inj last ▸ rfl
    have nonempty : word ≠ [] := List.ne_nil_of_length_pos (by omega)
    have whole : trim (a ++ word ++ b) = word ++ trimEnd b := by
      rw [← trim_solid_append nonempty first last, List.append_assoc,
        ← List.append_nil (a ++ (word ++ b)), trim_around (b := []) _ front (List.forall_mem_nil _)]
    rw [whole, ← long, List.take_left, List.drop_left, spelled]
    refine ⟨rfl, ?_⟩
    cases behind : trimEnd b with
    | nil => rfl
    | cons c rest =>
        obtain ⟨e, cut, -⟩ := exists_trimEnd b
        rw [behind] at cut
        rw [List.head?_cons, Option.all_some, apart c (by rw [cut]; rfl)]
        rfl

/-- The words that create a function, with the blank between them. -/
theorem exists_of_spelled_create {word : List Char}
    (spelled : word.map lowerLetter = "create function".toList) :
    ∃ first second, word = first ++ ' ' :: second ∧
      first.map lowerLetter = "create".toList ∧ second.map lowerLetter = "function".toList := by
  have parts : "create function".toList = "create".toList ++ ' ' :: "function".toList := by decide
  rw [parts, List.map_eq_append_iff] at spelled
  obtain ⟨first, rest, rfl, create, others⟩ := spelled
  obtain ⟨c, second, rfl, blank, function⟩ := List.map_eq_cons_iff.mp others
  have other : isLetter c = false := by
    rw [← isLetter_lowerLetter, blank]
    rfl
  rw [lowerLetter_of_not_isLetter other] at blank
  exact ⟨first, second, by rw [blank], create, function⟩

theorem mentionsFunction_of_starts (ends : EndsAtBlanks inWord)
    (starts : startsFunction inWord l = true) : MentionsFunction inWord l := by
  obtain ⟨a, word, b, rfl, front, spelled, apart⟩ := (startsFunction_iff ends).mp starts
  obtain ⟨first, second, rfl, -, function⟩ := exists_of_spelled_create spelled
  refine ⟨a ++ first ++ [' '], second, b, by simp, function, ?_, apart⟩
  rw [List.getLast?_concat]
  rintro _ ⟨rfl⟩
  exact ends ' ' rfl

/-! ## Rows that go on -/

section Rows

variable {x y : List Char} {c : Char}

/-- A row goes on with a symbol. -/
theorem Steady.append_symbol (ends : EndsAtBlanks inWord) (steady : Steady inWord x)
    (symbol : isSymbol c = true) : Steady inWord (x ++ c :: y) := by
  obtain ⟨-, solid⟩ := isSymbol_iff.mp symbol
  constructor
  · rw [Bool.eq_false_iff]
    intro go
    obtain ⟨a, word, b, same, front, back, spelled⟩ := isGo_iff.mp go
    have outside := notMem_of_spelled isSymbol_lowerLetter spelled (by decide) symbol
    have blank : isBlank c = true := by
      rcases split_word outside same.symm with ⟨m, -, rfl⟩ | ⟨m, rfl, -⟩
      · exact back c (List.mem_append_right m List.mem_cons_self)
      · exact front c (List.mem_append_right x List.mem_cons_self)
    rw [blank] at solid
    cases solid
  · rw [Bool.eq_false_iff]
    intro starts
    obtain ⟨a, word, b, same, front, spelled, apart⟩ := (startsFunction_iff ends).mp starts
    have outside := notMem_of_spelled isSymbol_lowerLetter spelled (by decide) symbol
    rcases split_word outside same.symm with ⟨m, rfl, rfl⟩ | ⟨m, rfl, -⟩
    · have before : startsFunction inWord (a ++ word ++ m) = true := by
        refine (startsFunction_iff ends).mpr ⟨a, word, m, rfl, front, spelled, fun d first => ?_⟩
        exact apart d (by rw [List.head?_append, Option.mem_def.mp first]; rfl)
      rw [steady.noStart] at before
      cases before
    · rw [front c (List.mem_append_right x List.mem_cons_self)] at solid
      cases solid

/-- A row goes on with a blank and a text without the word for functions. -/
theorem Steady.append_blank (ends : EndsAtBlanks inWord) (steady : Steady inWord x)
    (blank : isBlank c = true) (noGo : isGo y = false) (noFunction : ¬MentionsFunction inWord y) :
    Steady inWord (x ++ c :: y) := by
  constructor
  · rw [Bool.eq_false_iff]
    intro go
    obtain ⟨a, word, b, same, front, back, spelled⟩ := isGo_iff.mp go
    have outside := notMem_of_spelled isBlank_lowerLetter spelled (by decide) blank
    rcases split_word outside same.symm with ⟨m, whole, rfl⟩ | ⟨m, rfl, whole⟩
    · have here := isGo_iff.mpr ⟨a, word, m, whole, front, (blanks_append.mp back).1, spelled⟩
      rw [steady.noGo] at here
      cases here
    · have middle : Blanks m := fun d inside =>
        front d (List.mem_append_right x (List.mem_cons_of_mem c inside))
      have behind := isGo_iff.mpr ⟨m, word, b, whole, middle, back, spelled⟩
      rw [noGo] at behind
      cases behind
  · rw [Bool.eq_false_iff]
    intro starts
    obtain ⟨a, word, b, same, front, spelled, apart⟩ := (startsFunction_iff ends).mp starts
    obtain ⟨first, second, rfl, create, function⟩ := exists_of_spelled_create spelled
    have regrouped : a ++ first ++ [' '] ++ second ++ b = x ++ c :: y := by
      rw [same]
      simp
    have outside := notMem_of_spelled isBlank_lowerLetter function (by decide) blank
    rcases split_word outside regrouped with ⟨m, rfl, rfl⟩ | ⟨m, before, rfl⟩
    · have here : startsFunction inWord (a ++ first ++ [' '] ++ second ++ m) = true := by
        refine (startsFunction_iff ends).mpr
          ⟨a, first ++ ' ' :: second, m, by simp, front, spelled, fun d next => ?_⟩
        exact apart d (by rw [List.head?_append, Option.mem_def.mp next]; rfl)
      rw [steady.noStart] at here
      cases here
    · refine noFunction ⟨m, second, b, rfl, function, fun d last => ?_, apart⟩
      have final : (a ++ first ++ [' ']).getLast? = some d := by
        rw [before, List.getLast?_append_cons, List.getLast?_cons, Option.mem_def.mp last]
        rfl
      rw [List.getLast?_concat] at final
      cases final
      exact ends ' ' rfl

end Rows

/-! ## Quiet texts -/

/-- A text of which no line ends a batch, and which does not mention functions. -/
structure Quiet (inWord : Char → Bool) (t : List Char) : Prop where
  noGo : ∀ l ∈ lines t, isGo l = false
  noFunction : ¬MentionsFunction inWord t

theorem forall_lines_iff (t : List Char) :
    (∀ l ∈ lines t, isGo l = false) ↔ ∀ r ∈ rows t, isGo r = false := by
  obtain ⟨rs, r, cut, listed⟩ := lines_eq t
  have kept : (∀ q ∈ rs.map withoutReturn, isGo q = false) ↔ ∀ q ∈ rs, isGo q = false := by
    rw [List.forall_mem_map]
    refine forall₂_congr fun q _ => ?_
    rw [isGo_congr (trim_withoutReturn q)]
  have last : (∀ q ∈ if r = [] then [] else [r], isGo q = false) ↔ isGo r = false := by
    split
    next empty =>
      rw [empty]
      exact ⟨fun _ => rfl, fun _ => nofun⟩
    next => exact List.forall_mem_singleton
  rw [cut, listed, List.forall_mem_append, List.forall_mem_append, kept, last,
    List.forall_mem_singleton]

theorem MentionsFunction.around {t a b : List Char} (mentions : MentionsFunction inWord t)
    (before : ∀ c ∈ a.getLast?, inWord c = false) (behind : ∀ c ∈ b.head?, inWord c = false) :
    MentionsFunction inWord (a ++ t ++ b) := by
  obtain ⟨front, word, back, rfl, spelled, first, last⟩ := mentions
  refine ⟨a ++ front, word, back ++ b, by simp, spelled, fun c final => ?_, fun c next => ?_⟩
  · rw [List.getLast?_append, Option.mem_def, Option.or_eq_some_iff] at final
    exact final.elim (first c) fun ⟨_, here⟩ => before c here
  · rw [List.head?_append, Option.mem_def, Option.or_eq_some_iff] at next
    exact next.elim (last c) fun ⟨_, here⟩ => behind c here

/-- A text does not mention functions if it lacks a letter of the word. -/
theorem not_mentionsFunction_of_lacks {t : List Char} {c : Char} (needed : c ∈ "function".toList)
    (lacks : c ∉ t.map lowerLetter) : ¬MentionsFunction inWord t := by
  rintro ⟨a, word, b, rfl, spelled, -, -⟩
  rw [List.map_append, List.map_append, spelled] at lacks
  exact lacks (List.mem_append_left _ (List.mem_append_right _ needed))

namespace Quiet

variable {t : List Char}

theorem not_mentions_of_mem_rows (ends : EndsAtBlanks inWord) (quiet : Quiet inWord t)
    {r : List Char} (member : r ∈ rows t) : ¬MentionsFunction inWord r := by
  intro mentions
  obtain ⟨a, b, rfl, before, behind⟩ := exists_of_mem_rows member
  refine quiet.noFunction (mentions.around (fun c last => ?_) fun c first => ?_)
  · rw [before c last]
    exact ends '\n' rfl
  · rw [behind c first]
    exact ends '\n' rfl

theorem steady (ends : EndsAtBlanks inWord) (quiet : Quiet inWord t) :
    ∀ r ∈ rows t, Steady inWord r := by
  intro r member
  refine ⟨(forall_lines_iff t).mp quiet.noGo r member, Bool.eq_false_iff.mpr fun starts => ?_⟩
  exact quiet.not_mentions_of_mem_rows ends member (mentionsFunction_of_starts ends starts)

/-- Trimming keeps a text quiet. -/
theorem trim (ends : EndsAtBlanks inWord) (quiet : Quiet inWord t) : Quiet inWord (trim t) := by
  obtain ⟨a, b, whole, front, back⟩ := exists_trim t
  constructor
  · refine (forall_lines_iff _).mpr fun r member => ?_
    obtain ⟨x, y, inside, before, behind⟩ := exists_around_of_mem_rows a b member
    rw [← whole] at inside
    have same := trim_around r (fun c first => front c (before first)) fun c last =>
      back c (behind last)
    rw [← isGo_congr same]
    exact (forall_lines_iff t).mp quiet.noGo _ inside
  · intro mentions
    refine quiet.noFunction (whole ▸ mentions.around ?_ ?_)
    · exact fun c last => ends c (front c (List.mem_of_mem_getLast? last))
    · exact fun c first => ends c (back c (List.mem_of_mem_head? first))

end Quiet

end LearningStore.Text
