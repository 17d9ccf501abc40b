import LearningStore.Text.Letters

/-!
# 32-bit integers

An integer is an optional sign and at least one digit, and lies in the range of
32-bit words.
-/

namespace LearningStore.Value.Integer

open LearningStore.Text

/-- The least and the greatest 32-bit integer. -/
def least : Int := -2147483648

def greatest : Int := 2147483647

/-- The number that digits denote, if there is a digit and nothing else. -/
def natural? (s : List Char) : Option Nat :=
  if s.isEmpty || !s.all isDigit then none else some (numberOfDigits s)

/-- The integer that a signed run of digits denotes. -/
def signed? : List Char → Option Int
  | '-' :: rest => (natural? rest).map fun n => -(n : Int)
  | '+' :: rest => (natural? rest).map fun n => (n : Int)
  | s => (natural? s).map fun n => (n : Int)

/-- The 32-bit integer that a text denotes. -/
def read? (s : List Char) : Option Int :=
  (signed? s).filter fun n => least ≤ n && n ≤ greatest

end LearningStore.Value.Integer
