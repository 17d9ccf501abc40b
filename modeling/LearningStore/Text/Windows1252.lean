/-!
# Windows-1252

One byte is one character.  The bytes 80 to 9F have a table of their own, in
which the five unassigned ones stand for the control characters of the same
number; every other byte is the character of its number.
-/

namespace LearningStore.Text.Windows1252

/-- The characters of the bytes 80 to 9F, in order. -/
def upperControls : List Nat :=
  [0x20AC, 0x81, 0x201A, 0x0192, 0x201E, 0x2026, 0x2020, 0x2021,
   0x02C6, 0x2030, 0x0160, 0x2039, 0x0152, 0x8D, 0x017D, 0x8F,
   0x90, 0x2018, 0x2019, 0x201C, 0x201D, 0x2022, 0x2013, 0x2014,
   0x02DC, 0x2122, 0x0161, 0x203A, 0x0153, 0x9D, 0x017E, 0x0178]

/-- The character of a byte. -/
def charOf (byte : UInt8) : Char :=
  Char.ofNat (if 0x80 ≤ byte.toNat then upperControls.getD (byte.toNat - 0x80) byte.toNat
    else byte.toNat)

def decode (bytes : List UInt8) : List Char :=
  bytes.map charOf

end LearningStore.Text.Windows1252
