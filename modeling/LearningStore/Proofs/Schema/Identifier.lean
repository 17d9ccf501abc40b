import LearningStore.Schema.Reading.Attribute

/-!
# Identifiers

The names of a schema become identifiers of SQL and of C#.  `isName` accepts exactly
the texts of the expression `[A-Za-z_][A-Za-z0-9_]*`, none of which holds the sign
that sets off the endings of generated names.
-/

namespace LearningStore.Schema

open LearningStore.Text

/-- The characters of `[A-Za-z_]`. -/
def BeginsIdentifier (c : Char) : Prop :=
  ('A' ≤ c ∧ c ≤ 'Z') ∨ ('a' ≤ c ∧ c ≤ 'z') ∨ c = '_'

/-- The texts of `[A-Za-z_][A-Za-z0-9_]*`. -/
def IsIdentifier (name : String) : Prop :=
  ∃ first rest, name.toList = first :: rest ∧ BeginsIdentifier first ∧
    ∀ c ∈ rest, BeginsIdentifier c ∨ ('0' ≤ c ∧ c ≤ '9')

theorem beginsName_iff {c : Char} : beginsName c = true ↔ BeginsIdentifier c := by
  simp [beginsName, isLetter, BeginsIdentifier, or_assoc]

theorem isName_iff {name : String} : isName name = true ↔ IsIdentifier name := by
  unfold isName IsIdentifier
  cases name.toList with
  | nil => simp
  | cons first rest =>
      constructor
      · intro accepted
        exact ⟨first, rest, rfl, by simpa [beginsName_iff, isDigit] using accepted⟩
      · rintro ⟨_, _, spelled, accepted⟩
        cases spelled
        simpa [beginsName_iff, isDigit] using accepted

theorem BeginsIdentifier.ne_dollar {c : Char} (h : BeginsIdentifier c) : c ≠ '$' := by
  rintro rfl
  exact absurd h (by unfold BeginsIdentifier; decide)

/-- Generated names set off their endings with a sign that no identifier holds. -/
theorem IsIdentifier.dollar_notMem {name : String} (h : IsIdentifier name) :
    '$' ∉ name.toList := by
  obtain ⟨first, rest, spelled, begins, continues⟩ := h
  rw [spelled]
  intro member
  rcases List.mem_cons.mp member with here | later
  · exact begins.ne_dollar here.symm
  · rcases continues '$' later with letter | digit
    · exact letter.ne_dollar rfl
    · exact absurd digit (by decide)

end LearningStore.Schema
