/-!
# Blank characters

White space in a schema file is every character with the Unicode property
White_Space.  Trimming removes it from the ends of a text and leaves the middle
alone.
-/

namespace LearningStore.Text

/-- The characters with the property White_Space. -/
def isBlank (c : Char) : Bool :=
  let n := c.toNat
  (0x09 ≤ n && n ≤ 0x0D) || n == 0x20 || n == 0x85 || n == 0xA0 || n == 0x1680 ||
    (0x2000 ≤ n && n ≤ 0x200A) || n == 0x2028 || n == 0x2029 || n == 0x202F ||
    n == 0x205F || n == 0x3000

def trimStart (s : List Char) : List Char :=
  s.dropWhile isBlank

def trimEnd (s : List Char) : List Char :=
  (s.reverse.dropWhile isBlank).reverse

def trim (s : List Char) : List Char :=
  trimEnd (trimStart s)

/-- A text without the blanks at its ends. -/
def trimmed (s : String) : String :=
  String.ofList (trim s.toList)

/-- Whether a text holds no character, or blanks only. -/
def isBlankText (s : String) : Bool :=
  s.toList.all isBlank

end LearningStore.Text
