/-!
# Characters of XML

The classes of characters that the grammar of XML distinguishes: the characters a
document may hold, blanks, and the characters of names.
-/

namespace LearningStore.Xml

/-- Blank space of the grammar. -/
def isSpace (c : Char) : Bool :=
  c == ' ' || c == '\t' || c == '\n' || c == '\r'

/-- Whether a document may hold a character. -/
def isXmlChar (c : Char) : Bool :=
  if c.toNat < 0x20 then isSpace c else c.toNat != 0xFFFE && c.toNat != 0xFFFF

/-- Whether a number lies in one of several ranges, ends included. -/
def inRanges (ranges : List (Nat × Nat)) (n : Nat) : Bool :=
  ranges.any fun (low, high) => low ≤ n && n ≤ high

/-- The characters that may begin a name. -/
def nameStartRanges : List (Nat × Nat) :=
  [(0x41, 0x5A), (0x61, 0x7A), (0x3A, 0x3A), (0x5F, 0x5F), (0xC0, 0xD6), (0xD8, 0xF6),
    (0xF8, 0x2FF), (0x370, 0x37D), (0x37F, 0x1FFF), (0x200C, 0x200D), (0x2070, 0x218F),
    (0x2C00, 0x2FEF), (0x3001, 0xD7FF), (0xF900, 0xFDCF), (0xFDF0, 0xFFFD),
    (0x10000, 0xEFFFF)]

/-- The characters that a name may hold after its first one and not as its first. -/
def nameRestRanges : List (Nat × Nat) :=
  [(0x30, 0x39), (0x2D, 0x2E), (0xB7, 0xB7), (0x300, 0x36F), (0x203F, 0x2040)]

def isNameStart (c : Char) : Bool :=
  inRanges nameStartRanges c.toNat

def isNameChar (c : Char) : Bool :=
  isNameStart c || inRanges nameRestRanges c.toNat

/-- Whether a text is not empty and begins like a name. -/
def beginsName : List Char → Bool
  | [] => false
  | c :: _ => isNameStart c

end LearningStore.Xml
