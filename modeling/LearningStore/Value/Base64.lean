import LearningStore.Text.Letters

/-!
# Base64

Bytes in groups of three are written as four symbols of six bits; a last group
of one or two bytes is filled up with `=`.  The reader wants that filling and
wants the bits it does not use to be zero, so that every byte sequence has exactly
one written form.
-/

namespace LearningStore.Value.Base64

open LearningStore.Text

/-- Why a text is no Base64. -/
inductive Error where
  | symbol (byte offset : Nat)
  | lastSymbol (byte offset : Nat)
  | length (length : Nat)
  | padding
deriving DecidableEq, Repr

namespace Error

def message : Error → String
  | symbol byte offset =>
      "Invalid symbol " ++ toString byte ++ ", offset " ++ toString offset ++ "."
  | lastSymbol byte offset =>
      "Invalid last symbol " ++ toString byte ++ ", offset " ++ toString offset ++ "."
  | length n => "Invalid input length: " ++ toString n
  | padding => "Invalid padding"

end Error

/-- The byte of the filling. -/
def fill : UInt8 := 61

/-- The six bits that a symbol stands for. -/
def sextet? (byte : UInt8) : Option Nat :=
  let n := byte.toNat
  if 65 ≤ n ∧ n ≤ 90 then some (n - 65)
  else if 97 ≤ n ∧ n ≤ 122 then some (n - 71)
  else if 48 ≤ n ∧ n ≤ 57 then some (n + 4)
  else if n = 43 then some 62
  else if n = 47 then some 63
  else none

/-- The sextets of bytes that all must be symbols. -/
def sextets (offset : Nat) : List UInt8 → Except Error (List Nat)
  | [] => .ok []
  | b :: rest =>
      match sextet? b with
      | none => .error (.symbol b.toNat offset)
      | some n => (sextets (offset + 1) rest).map (n :: ·)

/-- The symbols of the last group and the number of fill bytes after them. -/
structure LastGroup where
  sextets : List Nat
  fills : Nat

/-- Read the last group from the left.  `place` is the place in the group. -/
def lastGroup (start : Nat) : Nat → LastGroup → List UInt8 → Except Error LastGroup
  | _, group, [] => .ok group
  | place, group, b :: rest =>
      if b = fill then
        if place < 2 then .error (.symbol b.toNat (start + place))
        else lastGroup start (place + 1) ⟨group.sextets, group.fills + 1⟩ rest
      else if 0 < group.fills then
        .error (.symbol fill.toNat (start + place - group.fills))
      else
        match sextet? b with
        | none => .error (.symbol b.toNat (start + place))
        | some n => lastGroup start (place + 1) ⟨group.sextets ++ [n], group.fills⟩ rest

/-- The bytes of groups of sextets: of two, three and four come one, two and
three bytes. -/
def bytesOf : List Nat → List UInt8
  | a :: b :: c :: d :: rest =>
      UInt8.ofNat (a * 4 + b / 16) :: UInt8.ofNat (b % 16 * 16 + c / 4) ::
        UInt8.ofNat (c % 4 * 64 + d) :: bytesOf rest
  | [a, b, c] => [UInt8.ofNat (a * 4 + b / 16), UInt8.ofNat (b % 16 * 16 + c / 4)]
  | [a, b] => [UInt8.ofNat (a * 4 + b / 16)]
  | _ => []

/-- Whether the bits that no byte uses are zero. -/
def unusedBitsZero : List Nat → Bool
  | [_, b] => b % 16 == 0
  | [_, _, c] => c % 4 == 0
  | _ => true

/-- The length of the groups before the last one, which is never empty. -/
def frontLength (length : Nat) : Nat :=
  (length - 1) / 4 * 4

/-- Whether the last byte can end no text of this length. -/
def strayEnd? (bytes : List UInt8) : Option UInt8 :=
  if bytes.length % 4 = 1 then
    bytes.getLast?.filter fun b => b != fill && (sextet? b).isNone
  else none

/-- The bytes that a text denotes. -/
def decode (bytes : List UInt8) : Except Error (List UInt8) := do
  match strayEnd? bytes with
  | some b => throw (.symbol b.toNat (bytes.length - 1))
  | none => pure ()
  let start := frontLength bytes.length
  let front ← sextets 0 (bytes.take start)
  let last := bytes.drop start
  let group ← lastGroup start 0 ⟨[], 0⟩ last
  let symbols := group.sextets.length
  if last.isEmpty then pure []
  else if symbols < 2 then throw (.length (start + symbols))
  else if symbols + group.fills ≠ 4 then throw .padding
  else if !unusedBitsZero group.sextets then
    let byte := (last[symbols - 1]?).getD fill
    throw (.lastSymbol byte.toNat (start + symbols - 1))
  else pure (bytesOf front ++ bytesOf group.sextets)

end LearningStore.Value.Base64
