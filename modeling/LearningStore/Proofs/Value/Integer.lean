import LearningStore.Value.Integer
import Mathlib.Data.Nat.Digits.Defs

/-!
# Written integers are read

The decimal text of an integer denotes it.
-/

namespace LearningStore.Value.Integer

open LearningStore.Text

theorem isDigit_of_mem_digitsOf {n : Nat} {c : Char} (h : c ∈ digitsOf n) :
    isDigit c = true := by
  have digit : 48 ≤ c.val ∧ c.val ≤ 57 := by
    simpa [Char.isDigit] using Nat.isDigit_of_mem_toDigits (by decide) (by decide) h
  exact Bool.and_eq_true_iff.mpr ⟨decide_eq_true digit.1, decide_eq_true digit.2⟩

theorem natural?_digitsOf (n : Nat) : natural? (digitsOf n) = some n := by
  have digits : (digitsOf n).all isDigit = true :=
    List.all_eq_true.mpr fun _ => isDigit_of_mem_digitsOf
  have present : (digitsOf n).isEmpty = false :=
    List.isEmpty_eq_false_iff.mpr Nat.toDigits_ne_nil
  have value : numberOfDigits (digitsOf n) = n :=
    (Nat.ofDigitChars_eq_foldl ..).symm.trans Nat.ofDigitChars_ten_toDigits
  rw [natural?, digits, present, value]
  rfl

/-- An integer is read back from its decimal text. -/
theorem signed?_integerText (n : Int) : signed? (integerText n).toList = some n := by
  cases n with
  | ofNat m =>
      rw [integerText, String.toList_ofList]
      unfold signed?
      split
      next rest spelled =>
        have sign : '-' ∈ digitsOf m := spelled ▸ List.mem_cons_self
        exact absurd (isDigit_of_mem_digitsOf sign) (by decide)
      next rest spelled =>
        have sign : '+' ∈ digitsOf m := spelled ▸ List.mem_cons_self
        exact absurd (isDigit_of_mem_digitsOf sign) (by decide)
      next =>
        rw [natural?_digitsOf]
        rfl
  | negSucc m =>
      rw [integerText, String.toList_ofList, signed?, natural?_digitsOf]
      rfl

end LearningStore.Value.Integer
