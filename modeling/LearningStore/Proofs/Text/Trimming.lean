import LearningStore.Text.Blank
import Mathlib.Data.List.DropRight
import Mathlib.Data.Option.Basic

/-!
# Trimming

A text is its trimmed form with blanks around it.  Blanks that are put around a text, at either
end, do not change its trimmed form.  The same holds of every list that is stripped at both ends
of the elements with a property.
-/

namespace LearningStore.Text

/-! ## Stripped lists -/

section Strip

variable {α β : Type} {p : α → Bool} {s whole core : List α}

/-- A list without the elements at its ends that have a property. -/
def strip (p : α → Bool) (s : List α) : List α :=
  (s.dropWhile p).rdropWhile p

/-- What is left of a list without the runs at its ends of elements that have a property, when
the runs are as long as can be. -/
structure Stripped (p : α → Bool) (whole core : List α) : Prop where
  around : ∃ a b, whole = a ++ core ++ b ∧ (∀ x ∈ a, p x = true) ∧ ∀ x ∈ b, p x = true
  first : ∀ x ∈ core.head?, p x = false
  last : ∀ x ∈ core.getLast?, p x = false

theorem last_rdropWhile {x : α} (final : x ∈ (s.rdropWhile p).getLast?) : p x = false := by
  rw [List.rdropWhile, List.getLast?_reverse] at final
  have first := List.head?_dropWhile_not p s.reverse
  rw [Option.mem_def.mp final] at first
  exact first

theorem stripped_strip (p : α → Bool) (s : List α) : Stripped p s (strip p s) := by
  have rest : strip p s ++ (s.dropWhile p).rtakeWhile p = s.dropWhile p :=
    List.rdropWhile_append_rtakeWhile
  constructor
  · refine ⟨s.takeWhile p, (s.dropWhile p).rtakeWhile p, ?_,
      fun x => List.mem_takeWhile_imp, fun x => List.mem_rtakeWhile_imp⟩
    rw [List.append_assoc, rest, List.takeWhile_append_dropWhile]
  · intro x here
    have front : (s.dropWhile p).head? = some x := by
      rw [← rest, List.head?_append, Option.mem_def.mp here]
      rfl
    have solid := List.head?_dropWhile_not p s
    rw [front] at solid
    exact solid
  · exact fun x => last_rdropWhile

theorem strip_eq_nil_iff : strip p s = [] ↔ ∀ x ∈ s, p x = true := by
  rw [strip, List.rdropWhile_eq_nil_iff]
  constructor
  · intro all x inside
    rw [← List.takeWhile_append_dropWhile (p := p) (l := s), List.mem_append] at inside
    rcases inside with front | back
    · exact List.mem_takeWhile_imp front
    · exact all x back
  · exact fun all x inside => all x ((List.dropWhile_sublist _).subset inside)

theorem strip_eq_self (first : ∀ x ∈ s.head?, p x = false)
    (last : ∀ x ∈ s.getLast?, p x = false) : strip p s = s := by
  have kept : s.dropWhile p = s := by
    cases s with
    | nil => rfl
    | cons x rest => exact List.dropWhile_cons_of_neg (ne_true_of_eq_false (first x rfl))
  rw [strip, kept, List.rdropWhile_eq_self_iff]
  exact fun nonempty => ne_true_of_eq_false (last _ (List.getLast_mem_getLast? nonempty))

theorem rdropWhile_append {b : List α} (s : List α) (back : ∀ x ∈ b, p x = true) :
    (s ++ b).rdropWhile p = s.rdropWhile p := by
  rw [List.rdropWhile, List.reverse_append, List.dropWhile_append_of_pos, List.rdropWhile]
  exact fun x inside => back x (List.mem_reverse.mp inside)

/-- What is put around a list and has the property is stripped. -/
theorem strip_around {a b : List α} (s : List α) (front : ∀ x ∈ a, p x = true)
    (back : ∀ x ∈ b, p x = true) : strip p (a ++ s ++ b) = strip p s := by
  rw [strip, List.append_assoc, List.dropWhile_append_of_pos front, List.dropWhile_append]
  split
  next none =>
    -- with nothing left in the middle, the elements behind it are the first ones to go
    rw [strip, List.isEmpty_iff.mp none, List.dropWhile_eq_nil_iff.mpr back]
  next => exact rdropWhile_append _ back

theorem strip_eq_iff : strip p whole = core ↔ Stripped p whole core := by
  constructor
  · rintro rfl
    exact stripped_strip p whole
  · rintro ⟨⟨a, b, rfl, front, back⟩, first, last⟩
    rw [strip_around core front back, strip_eq_self first last]

theorem Stripped.self (stripped : Stripped p whole core) : Stripped p core core :=
  ⟨⟨[], [], (List.append_nil core).symm, nofun, nofun⟩, stripped.first, stripped.last⟩

/-- Elements that are replaced are stripped by what stands in their place. -/
theorem Stripped.map {p : β → Bool} {f : α → β} (stripped : Stripped (p ∘ f) whole core) :
    Stripped p (whole.map f) (core.map f) := by
  obtain ⟨⟨a, b, rfl, front, back⟩, first, last⟩ := stripped
  refine ⟨⟨a.map f, b.map f, ?_, List.forall_mem_map.mpr front, List.forall_mem_map.mpr back⟩,
    ?_, ?_⟩
  · rw [List.map_append, List.map_append]
  · rw [List.head?_map]
    exact Option.forall_mem_map.mpr first
  · rw [List.getLast?_map]
    exact Option.forall_mem_map.mpr last

end Strip

/-! ## Trimmed texts -/

/-- A text of blanks alone. -/
def Blanks (s : List Char) : Prop :=
  ∀ c ∈ s, isBlank c = true

theorem blanks_append {a b : List Char} : Blanks (a ++ b) ↔ Blanks a ∧ Blanks b :=
  List.forall_mem_append

theorem blanks_replicate (n : Nat) : Blanks (List.replicate n ' ') := by
  intro c inside
  rw [List.eq_of_mem_replicate inside]
  rfl

theorem trimStart_append {a : List Char} (blank : Blanks a) (s : List Char) :
    trimStart (a ++ s) = trimStart s :=
  List.dropWhile_append_of_pos blank

theorem trim_eq_nil_iff {s : List Char} : trim s = [] ↔ Blanks s :=
  strip_eq_nil_iff

/-- Blanks around a text are trimmed. -/
theorem trim_around {a b : List Char} (s : List Char) (front : Blanks a) (back : Blanks b) :
    trim (a ++ s ++ b) = trim s :=
  strip_around s front back

theorem exists_trimEnd (s : List Char) : ∃ b, s = trimEnd s ++ b ∧ Blanks b :=
  ⟨s.rtakeWhile isBlank, List.rdropWhile_append_rtakeWhile.symm, fun _ => List.mem_rtakeWhile_imp⟩

/-- A text is its trimmed form between blanks. -/
theorem exists_trim (s : List Char) : ∃ a b, s = a ++ trim s ++ b ∧ Blanks a ∧ Blanks b :=
  (stripped_strip isBlank s).around

theorem trim_subset (s : List Char) : trim s ⊆ s := by
  obtain ⟨a, b, whole, -, -⟩ := exists_trim s
  intro c inside
  rw [whole]
  exact List.mem_append_left b (List.mem_append_right a inside)

theorem not_isBlank_of_head?_trim {s : List Char} {c : Char} (first : c ∈ (trim s).head?) :
    isBlank c = false :=
  (stripped_strip isBlank s).first c first

theorem not_isBlank_of_getLast?_trimEnd {s : List Char} {c : Char}
    (last : c ∈ (trimEnd s).getLast?) : isBlank c = false :=
  last_rdropWhile last

theorem trim_trim (s : List Char) : trim (trim s) = trim s :=
  strip_eq_iff.mpr (stripped_strip isBlank s).self

theorem trim_eq_self {s : List Char} (first : ∀ c ∈ s.head?, isBlank c = false)
    (last : ∀ c ∈ s.getLast?, isBlank c = false) : trim s = s :=
  strip_eq_self first last

/-- A text that starts with one mark and ends with another has no blanks to trim. -/
theorem trim_enclosed {first last : Char} (inner : List Char) (before : isBlank first = false)
    (behind : isBlank last = false) :
    trim (first :: inner ++ [last]) = first :: inner ++ [last] := by
  refine trim_eq_self ?_ ?_
  · rintro _ ⟨rfl⟩
    exact before
  · rw [List.getLast?_concat]
    rintro _ ⟨rfl⟩
    exact behind

theorem trim_eq_self_of_forall {s : List Char} (solid : ∀ c ∈ s, isBlank c = false) :
    trim s = s :=
  trim_eq_self (fun c here => solid c (List.mem_of_mem_head? here))
    fun c here => solid c (List.mem_of_mem_getLast? here)

/-- Where a text starts and ends with no blank, only what follows it is trimmed. -/
theorem trim_solid_append {s : List Char} (nonempty : s ≠ [])
    (first : ∀ c ∈ s.head?, isBlank c = false) (last : ∀ c ∈ s.getLast?, isBlank c = false)
    (b : List Char) : trim (s ++ b) = s ++ trimEnd b := by
  obtain ⟨e, whole, back⟩ := exists_trimEnd b
  have around := trim_around (a := []) (s ++ trimEnd b) nofun back
  rw [List.nil_append, List.append_assoc, ← whole] at around
  rw [around]
  refine trim_eq_self ?_ ?_
  · obtain ⟨c, rest, rfl⟩ := List.exists_cons_of_ne_nil nonempty
    exact first
  · intro c final
    rw [List.getLast?_append, Option.mem_def] at final
    cases behind : (trimEnd b).getLast? with
    | none =>
        rw [behind] at final
        exact last c final
    | some d =>
        rw [behind] at final
        cases final
        exact not_isBlank_of_getLast?_trimEnd behind

end LearningStore.Text
