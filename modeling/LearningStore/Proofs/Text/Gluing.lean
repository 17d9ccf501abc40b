import Mathlib.Data.List.Basic

/-!
# Glued texts

Two texts with a sign between them can be told apart again where the sign stands in only one
place, or where it is known to be the first or the last one.  A text that is glued from literals
has their characters one after the other.
-/

namespace LearningStore.Text

/-- Texts that are glued with one sign in between are equal if they are cut at the same sign, or
if one is cut at a sign that the other has inside a part. -/
theorem append_cons_eq_iff {α : Type} {c : α} {a b x y : List α} :
    a ++ c :: x = b ++ c :: y ↔ (a = b ∧ x = y) ∨
      (∃ m, b = a ++ c :: m ∧ x = m ++ c :: y) ∨ ∃ m, a = b ++ c :: m ∧ y = m ++ c :: x := by
  rw [List.append_eq_append_iff]
  constructor
  · rintro (⟨m, rfl, same⟩ | ⟨m, rfl, same⟩)
    · cases m with
      | nil => exact .inl ⟨(List.append_nil a).symm, (List.cons.inj same).2⟩
      | cons d m =>
          obtain ⟨rfl, rest⟩ := List.cons.inj same
          exact .inr (.inl ⟨m, rfl, rest⟩)
    · cases m with
      | nil => exact .inl ⟨List.append_nil b, (List.cons.inj same).2.symm⟩
      | cons d m =>
          obtain ⟨rfl, rest⟩ := List.cons.inj same
          exact .inr (.inr ⟨m, rfl, rest⟩)
  · rintro (⟨rfl, rfl⟩ | ⟨m, rfl, rfl⟩ | ⟨m, rfl, rfl⟩)
    · exact .inl ⟨[], (List.append_nil a).symm, rfl⟩
    · exact .inl ⟨c :: m, rfl, rfl⟩
    · exact .inr ⟨c :: m, rfl, rfl⟩

theorem append_underscore_eq_iff {a b x y : String} :
    a ++ "_" ++ x = b ++ "_" ++ y ↔ (a = b ∧ x = y) ∨
      (∃ m, b = a ++ "_" ++ m ∧ x = m ++ "_" ++ y) ∨
        ∃ m, a = b ++ "_" ++ m ∧ y = m ++ "_" ++ x := by
  have glued (p q : String) : (p ++ "_" ++ q).toList = p.toList ++ '_' :: q.toList := by
    simp
  have texts {P : List Char → Prop} : (∃ m, P m) ↔ ∃ m : String, P m.toList :=
    ⟨fun ⟨m, h⟩ => ⟨String.ofList m, by rwa [String.toList_ofList]⟩, fun ⟨m, h⟩ => ⟨m.toList, h⟩⟩
  simp only [← String.toList_inj, glued, append_cons_eq_iff, texts]

/-- Texts are cut at the first place of a sign in one way only. -/
theorem append_cons_inj_first {α : Type} {c : α} {a b x y : List α} (first : c ∉ a)
    (first' : c ∉ b) (same : a ++ c :: x = b ++ c :: y) : a = b ∧ x = y := by
  rcases append_cons_eq_iff.mp same with parts | ⟨m, rfl, -⟩ | ⟨m, rfl, -⟩
  · exact parts
  · exact absurd (List.mem_append_right a List.mem_cons_self) first'
  · exact absurd (List.mem_append_right b List.mem_cons_self) first

/-- Texts are cut at the last place of a sign in one way only. -/
theorem append_cons_inj_last {α : Type} {c : α} {a b x y : List α} (last : c ∉ x)
    (last' : c ∉ y) (same : a ++ c :: x = b ++ c :: y) : a = b ∧ x = y := by
  rcases append_cons_eq_iff.mp same with parts | ⟨m, -, rfl⟩ | ⟨m, -, rfl⟩
  · exact parts
  · exact absurd (List.mem_append_right m List.mem_cons_self) last
  · exact absurd (List.mem_append_right m List.mem_cons_self) last'

/-- Literals and their characters, one after the other.  A literal is its characters in the first
place, so that they are at hand without being decoded. -/
inductive SpelledOut : List String → List Char → Prop
  | nil : SpelledOut [] []
  | cons (literal : List Char) {rest : List String} {chars : List Char}
      (more : SpelledOut rest chars) :
      SpelledOut (String.ofList literal :: rest) (literal ++ chars)

theorem SpelledOut.flatMap_toList {literals : List String} {chars : List Char}
    (spelled : SpelledOut literals chars) : literals.flatMap String.toList = chars := by
  induction spelled with
  | nil => rfl
  | cons literal more ih => rw [List.flatMap_cons, String.toList_ofList, ih]

end LearningStore.Text
