import LearningStore.Text.Utf16
import LearningStore.Text.Windows1252

/-!
# The encoding of a file

A byte order mark names the encoding of the bytes after it, and they must be
valid in it.  Without one the bytes are UTF-8 if they are valid UTF-8, and
Windows-1252 otherwise, which every byte sequence is.
-/

namespace LearningStore.Text

/-- The encodings that a byte order mark can name. -/
inductive Encoding where
  | utf8
  | utf16LowFirst
  | utf16HighFirst
deriving DecidableEq, Repr

namespace Encoding

def name : Encoding → String
  | utf8 => "UTF-8"
  | utf16LowFirst => "UTF-16LE"
  | utf16HighFirst => "UTF-16BE"

/-- The encoding that a byte order mark names, and the bytes after the mark. -/
def marked? : List UInt8 → Option (Encoding × List UInt8)
  | 0xEF :: 0xBB :: 0xBF :: rest => some (utf8, rest)
  | 0xFF :: 0xFE :: rest => some (utf16LowFirst, rest)
  | 0xFE :: 0xFF :: rest => some (utf16HighFirst, rest)
  | _ => none

/-- The text of bytes in an encoding, if they are valid in it. -/
def decode? (encoding : Encoding) (bytes : List UInt8) : Option String :=
  match encoding with
  | utf8 => String.fromUTF8? ⟨bytes.toArray⟩
  | utf16LowFirst =>
      ((Utf16.unitsLowFirst bytes).bind Utf16.decodeUnits).map String.ofList
  | utf16HighFirst =>
      ((Utf16.unitsHighFirst bytes).bind Utf16.decodeUnits).map String.ofList

end Encoding

/-- The text of a file, or the marked encoding in which its bytes are not valid. -/
def textOfBytes (bytes : List UInt8) : Except Encoding String :=
  match Encoding.marked? bytes with
  | some (encoding, rest) =>
      match encoding.decode? rest with
      | some text => .ok text
      | none => .error encoding
  | none =>
      match Encoding.utf8.decode? bytes with
      | some text => .ok text
      | none => .ok (String.ofList (Windows1252.decode bytes))

end LearningStore.Text
