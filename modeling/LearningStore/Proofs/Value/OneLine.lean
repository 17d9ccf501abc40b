import LearningStore.Proofs.Text.SourceLines
import LearningStore.Proofs.Value.Figures

/-!
# Values on one line

What is written in figures is on one line.  Only a default that is a text or an expression can
have line ends in it.
-/

namespace LearningStore.Value

open LearningStore.Text

/-- No figure ends a line. -/
theorem Figures.oneLine {s : List Char} (h : Figures s) : OneLine s :=
  fun c member => not_isTerminator_of (by decide) (h c member)

theorem oneLine_integerText (n : Int) : OneLine (integerText n).toList :=
  (figures_integerText n).oneLine

/-! ## Line ends -/

/-- A text with one character in the place of every pair of two, looked for from the left. -/
def replacePair (first second by' : Char) : List Char → List Char
  | a :: b :: rest =>
      if a = first ∧ b = second then by' :: replacePair first second by' rest
      else a :: replacePair first second by' (b :: rest)
  | s => s

/-- A text with one space in the place of every line end. -/
def flattened (s : List Char) : List Char :=
  (replacePair '\r' '\n' ' ' s).map fun c => if c = '\r' ∨ c = '\n' then ' ' else c

theorem onOneLine_eq (s : List Char) : Literal.onOneLine s = flattened s := by
  unfold flattened
  fun_induction Literal.onOneLine s with
  | case1 => rfl
  | case2 rest ih => rw [ih, replacePair, if_pos ⟨rfl, rfl⟩, List.map_cons]; rfl
  | case3 c rest other ih =>
      have kept : replacePair '\r' '\n' ' ' (c :: rest) = c :: replacePair '\r' '\n' ' ' rest := by
        cases rest with
        | nil => rfl
        | cons d rest =>
            refine if_neg ?_
            rintro ⟨rfl, rfl⟩
            exact other rest rfl rfl
      rw [ih, kept, List.map_cons]

theorem notMem_flattened {c : Char} (s : List Char) (lineEnd : c = '\r' ∨ c = '\n') :
    c ∉ flattened s := by
  intro inside
  obtain ⟨d, -, replaced⟩ := List.mem_map.mp inside
  split at replaced
  next => rcases lineEnd with rfl | rfl <;> cases replaced
  next plain => exact plain (replaced ▸ lineEnd)

end LearningStore.Value
