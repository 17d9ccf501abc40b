import LearningStore.Proofs.Text.SourceLines
import LearningStore.Proofs.Text.Trimming
import LearningStore.Text.Letters

/-!
# Batches

A tool that runs a script cuts it at the lines that hold nothing but the word GO, and sends one
batch after the other to the server.  A function has to be created by the first statement of a
batch.  A line is told by its trimmed text: whether it ends a batch, is idle, or starts a function.
What can follow a word is left open by a predicate for the characters that go on with it, so that
the word may be meant as a whole or wherever its letters occur.
-/

namespace LearningStore.Text

/-! ## Lines of a script -/

/-- A line that ends a batch. -/
def isGo (l : List Char) : Bool :=
  (trim l).map lowerLetter == "go".toList

/-- A blank line, or one with a comment and nothing else. -/
def isIdle (l : List Char) : Bool :=
  (trim l).isEmpty || "--".toList.isPrefixOf (trim l)

/-- The batches of a text, each by its lines. -/
def batches (text : String) : List (List (List Char)) :=
  (lines text.toList).splitOnP isGo

section Words

variable (inWord : Char → Bool)

/-- A line that starts with the words that create a function. -/
def startsFunction (l : List Char) : Bool :=
  ((trim l).take 15).map lowerLetter == "create function".toList &&
    ((trim l).drop 15).head?.all fun c => !inWord c

/-- A text with the word for functions in it. -/
def MentionsFunction (t : List Char) : Prop :=
  ∃ a word b, t = a ++ word ++ b ∧ word.map lowerLetter = "function".toList ∧
    (∀ c ∈ a.getLast?, inWord c = false) ∧ ∀ c ∈ b.head?, inWord c = false

/-- A batch in which one line at most starts a function, with idle lines before it. -/
structure BatchFits (batch : List (List Char)) : Prop where
  once : batch.countP (startsFunction inWord) ≤ 1
  first : ∀ front l back, batch = front ++ l :: back → startsFunction inWord l = true →
    ∀ m ∈ front, isIdle m = true

/-- A line that neither ends a batch nor starts a function. -/
structure Steady (l : List Char) : Prop where
  noGo : isGo l = false
  noStart : startsFunction inWord l = false

end Words

variable {inWord : Char → Bool}

theorem isGo_congr {l m : List Char} (same : trim l = trim m) : isGo l = isGo m := by
  rw [isGo, same, isGo]

theorem startsFunction_congr {l m : List Char} (same : trim l = trim m) :
    startsFunction inWord l = startsFunction inWord m := by
  rw [startsFunction, same, startsFunction]

theorem Steady.congr {l m : List Char} (steady : Steady inWord l) (same : trim l = trim m) :
    Steady inWord m :=
  ⟨isGo_congr same ▸ steady.noGo, startsFunction_congr same ▸ steady.noStart⟩

theorem steady_of_isIdle {l : List Char} (idle : isIdle l = true) : Steady inWord l := by
  rcases Bool.or_eq_true_iff.mp idle with blank | comment
  · have empty := List.isEmpty_iff.mp blank
    constructor
    · rw [isGo, empty]
      rfl
    · rw [startsFunction, empty]
      rfl
  · obtain ⟨rest, commented⟩ := List.isPrefixOf_iff_prefix.mp comment
    constructor
    · rw [isGo, ← commented]
      simp [show lowerLetter '-' = '-' by decide]
    · rw [startsFunction, ← commented]
      simp [show lowerLetter '-' = '-' by decide]

/-! ## Lines in order -/

/-- Lines that start functions while there are only idle lines in their batch.  The flag tells
whether there are only idle ones so far. -/
def Orderly (inWord : Char → Bool) : Bool → List (List Char) → Prop
  | _, [] => True
  | fresh, l :: rest =>
      if isGo l then Orderly inWord true rest
      else (startsFunction inWord l = true → fresh = true) ∧
        Orderly inWord (fresh && isIdle l) rest

section Orderly

variable {fresh : Bool} {ls more : List (List Char)} {l : List Char}

theorem Orderly.mono {wider : Bool} (orderly : Orderly inWord fresh ls)
    (le : fresh = true → wider = true) : Orderly inWord wider ls := by
  induction ls generalizing fresh wider with
  | nil => trivial
  | cons l rest ih =>
      rw [Orderly] at orderly ⊢
      split at orderly
      next go =>
        rw [if_pos go]
        exact orderly
      next other =>
        rw [if_neg other]
        refine ⟨fun starts => le (orderly.1 starts), ih orderly.2 fun both => ?_⟩
        obtain ⟨still, idle⟩ := Bool.and_eq_true_iff.mp both
        rw [le still, idle]
        rfl

theorem orderly_cons_go (go : isGo l = true) (rest : Orderly inWord true ls) :
    Orderly inWord fresh (l :: ls) := by
  rw [Orderly, if_pos go]
  exact rest

/-- A line that starts a function may stand where there are only idle lines. -/
theorem orderly_cons_first (noGo : isGo l = false) (rest : Orderly inWord false ls) :
    Orderly inWord true (l :: ls) := by
  rw [Orderly, if_neg (ne_true_of_eq_false noGo)]
  exact ⟨fun _ => rfl, rest.mono nofun⟩

theorem orderly_append_idle (idle : ∀ l ∈ ls, isIdle l = true) (rest : Orderly inWord fresh more) :
    Orderly inWord fresh (ls ++ more) := by
  induction ls with
  | nil => exact rest
  | cons l ls ih =>
      obtain ⟨here, others⟩ := List.forall_mem_cons.mp idle
      have steady : Steady inWord l := steady_of_isIdle here
      rw [List.cons_append, Orderly, if_neg (ne_true_of_eq_false steady.noGo)]
      refine ⟨fun starts => ?_, ?_⟩
      · rw [steady.noStart] at starts
        cases starts
      · rw [here, Bool.and_true]
        exact ih others

theorem orderly_append_steady (steady : ∀ l ∈ ls, Steady inWord l)
    (rest : Orderly inWord false more) : Orderly inWord fresh (ls ++ more) := by
  induction ls generalizing fresh with
  | nil => exact rest.mono nofun
  | cons l ls ih =>
      obtain ⟨here, others⟩ := List.forall_mem_cons.mp steady
      rw [List.cons_append, Orderly, if_neg (ne_true_of_eq_false here.noGo)]
      refine ⟨fun starts => ?_, ih others⟩
      rw [here.noStart] at starts
      cases starts

/-- Lines in which only idle ones stand before one that starts a function. -/
def StartsFirst (inWord : Char → Bool) (batch : List (List Char)) : Prop :=
  ∀ front l back, batch = front ++ l :: back → startsFunction inWord l = true →
    ∀ m ∈ front, isIdle m = true

theorem StartsFirst.tail {batch : List (List Char)} (first : StartsFirst inWord (l :: batch)) :
    StartsFirst inWord batch := by
  intro front m back cut starts n inside
  exact first (l :: front) m back (by rw [cut]; rfl) starts n (List.mem_cons_of_mem l inside)

theorem StartsFirst.once {batch : List (List Char)} (first : StartsFirst inWord batch) :
    batch.countP (startsFunction inWord) ≤ 1 := by
  induction batch with
  | nil => exact Nat.zero_le 1
  | cons l rest ih =>
      cases starts : startsFunction inWord l with
      | false =>
          rw [List.countP_cons_of_neg (ne_true_of_eq_false starts)]
          exact ih first.tail
      | true =>
          have none_later : rest.countP (startsFunction inWord) = 0 := by
            rw [List.countP_eq_zero]
            intro m inside later
            obtain ⟨front, back, rfl⟩ := List.append_of_mem inside
            have idle := first (l :: front) m back rfl later l List.mem_cons_self
            rw [(steady_of_isIdle idle).noStart] at starts
            cases starts
          rw [List.countP_cons_of_pos starts, none_later]

theorem StartsFirst.fits {batch : List (List Char)} (first : StartsFirst inWord batch) :
    BatchFits inWord batch :=
  ⟨first.once, first⟩

/-- The invariant of the order: the batch that is going on starts a function only if all its lines
so far are idle, and all later batches fit. -/
theorem Orderly.split (orderly : Orderly inWord fresh ls) {batch : List (List Char)}
    {others : List (List (List Char))} (cut : ls.splitOnP isGo = batch :: others) :
    (∀ front l back, batch = front ++ l :: back → startsFunction inWord l = true →
      fresh = true ∧ ∀ m ∈ front, isIdle m = true) ∧
    ∀ other ∈ others, StartsFirst inWord other := by
  induction ls generalizing fresh batch others with
  | nil =>
      cases cut
      refine ⟨fun front l back empty => ?_, nofun⟩
      cases List.append_eq_nil_iff.mp empty.symm |>.2
  | cons l rest ih =>
      obtain ⟨next, later, rest_cut⟩ := List.exists_cons_of_ne_nil (List.splitOnP_ne_nil isGo rest)
      rw [List.splitOnP_cons_eq_if_modifyHead, rest_cut] at cut
      unfold Orderly at orderly
      split at orderly
      next go =>
        rw [if_pos go] at cut
        cases cut
        obtain ⟨first, fits⟩ := ih orderly rest_cut
        refine ⟨fun front m back empty => ?_, List.forall_mem_cons.mpr ⟨?_, fits⟩⟩
        · cases List.append_eq_nil_iff.mp empty.symm |>.2
        · exact fun front m back listed starts => (first front m back listed starts).2
      next other =>
        rw [if_neg other] at cut
        cases cut
        obtain ⟨first, fits⟩ := ih orderly.2 rest_cut
        refine ⟨fun front m back listed starts => ?_, fits⟩
        cases front with
        | nil =>
            cases listed
            exact ⟨orderly.1 starts, nofun⟩
        | cons n front =>
            obtain ⟨rfl, behind⟩ := List.cons.inj listed
            obtain ⟨both, idle⟩ := first front m back behind starts
            obtain ⟨still, here⟩ := Bool.and_eq_true_iff.mp both
            exact ⟨still, List.forall_mem_cons.mpr ⟨here, idle⟩⟩

theorem Orderly.fits (orderly : Orderly inWord true ls) :
    ∀ batch ∈ ls.splitOnP isGo, BatchFits inWord batch := by
  obtain ⟨batch, others, cut⟩ := List.exists_cons_of_ne_nil (List.splitOnP_ne_nil isGo ls)
  obtain ⟨first, fits⟩ := orderly.split cut
  rw [cut, List.forall_mem_cons]
  refine ⟨StartsFirst.fits fun front l back listed starts => (first front l back listed starts).2,
    fun other inside => (fits other inside).fits⟩

end Orderly

end LearningStore.Text
