/-!
# Letters and case

Names are compared without regard to the case of the letters A to Z.  No other
letter has a second case here.
-/

namespace LearningStore.Text

/-- A property of every character of a text is decided along the text, not over all characters. -/
instance decidableForallMem {p : Char → Prop} [DecidablePred p] (s : List Char) :
    Decidable (∀ c ∈ s, p c) :=
  List.decidableBAll p s

/-- A capital letter A to Z becomes its small letter; all else stays. -/
def lowerLetter (c : Char) : Char :=
  if 'A' ≤ c ∧ c ≤ 'Z' then Char.ofNat (c.toNat + 32) else c

/-- A text with its capital letters A to Z made small. -/
def lowered (s : String) : String :=
  String.ofList (s.toList.map lowerLetter)

/-- Equality without regard to the case of the letters A to Z. -/
def sameLetters (a b : String) : Bool :=
  a.toList.map lowerLetter == b.toList.map lowerLetter

/-- A letter A to Z in either case. -/
def isLetter (c : Char) : Bool :=
  ('A' ≤ c && c ≤ 'Z') || ('a' ≤ c && c ≤ 'z')

/-- A digit 0 to 9. -/
def isDigit (c : Char) : Bool :=
  '0' ≤ c && c ≤ '9'

/-- The value of a digit 0 to 9. -/
def digitValue (c : Char) : Nat :=
  c.toNat - 48

/-- The number that a run of digits denotes in base ten. -/
def numberOfDigits (digits : List Char) : Nat :=
  digits.foldl (fun n c => 10 * n + digitValue c) 0

/-- The value of a hexadecimal digit in either case. -/
def hexValue? (c : Char) : Option Nat :=
  if isDigit c then some (c.toNat - 48)
  else if 'a' ≤ c ∧ c ≤ 'f' then some (c.toNat - 87)
  else if 'A' ≤ c ∧ c ≤ 'F' then some (c.toNat - 55)
  else none

/-- The decimal digits of a number. -/
def digitsOf (n : Nat) : List Char :=
  Nat.toDigits 10 n

/-- The decimal digits of a number, with zeros in front up to a width. -/
def paddedDigits (width n : Nat) : List Char :=
  let digits := digitsOf n
  List.replicate (width - digits.length) '0' ++ digits

/-- The decimal text of an integer: a minus sign in front of a negative one. -/
def integerText (n : Int) : String :=
  match n with
  | .ofNat m => String.ofList (digitsOf m)
  | .negSucc m => String.ofList ('-' :: digitsOf (m + 1))

/-- Whether one text occurs inside another. -/
def occursIn (needle : List Char) : List Char → Bool
  | [] => needle.isEmpty
  | c :: rest => needle.isPrefixOf (c :: rest) || occursIn needle rest

end LearningStore.Text
