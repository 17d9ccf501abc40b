/-!
# UTF-16

A sequence of 16-bit units denotes characters: a unit outside the surrogate
range is a character by itself, a high surrogate and the low one after it are one
together, and no surrogate stands alone.
-/

namespace LearningStore.Text.Utf16

def isHighSurrogate (unit : Nat) : Bool :=
  0xD800 ≤ unit && unit ≤ 0xDBFF

def isLowSurrogate (unit : Nat) : Bool :=
  0xDC00 ≤ unit && unit ≤ 0xDFFF

/-- The character of a surrogate pair. -/
def pairedChar (high low : Nat) : Char :=
  Char.ofNat (0x10000 + (high - 0xD800) * 0x400 + (low - 0xDC00))

/-- The characters of a sequence of units, if no surrogate stands alone. -/
def decodeUnits : List Nat → Option (List Char)
  | [] => some []
  | [unit] =>
      if isHighSurrogate unit || isLowSurrogate unit then none
      else some [Char.ofNat unit]
  | unit :: next :: rest =>
      if isHighSurrogate unit then
        if isLowSurrogate next then (decodeUnits rest).map (pairedChar unit next :: ·)
        else none
      else if isLowSurrogate unit then none
      else (decodeUnits (next :: rest)).map (Char.ofNat unit :: ·)

/-- The units of a byte sequence, low byte first. -/
def unitsLowFirst : List UInt8 → Option (List Nat)
  | [] => some []
  | [_] => none
  | low :: high :: rest => (unitsLowFirst rest).map ((high.toNat * 256 + low.toNat) :: ·)

/-- The units of a byte sequence, high byte first. -/
def unitsHighFirst : List UInt8 → Option (List Nat)
  | [] => some []
  | [_] => none
  | high :: low :: rest => (unitsHighFirst rest).map ((high.toNat * 256 + low.toNat) :: ·)

end LearningStore.Text.Utf16
