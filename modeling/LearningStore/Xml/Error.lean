/-!
# Faults of XML documents

What can be wrong with a document, where, and how it is said.  A place is a line
and a column, both counted from one; faults of the document as a whole are at its
beginning.
-/

namespace LearningStore.Xml

/-- A place in a text. -/
structure Position where
  line : Nat
  column : Nat
deriving DecidableEq, Repr

namespace Position

def text (p : Position) : String :=
  toString p.line ++ ":" ++ toString p.column

/-- Move past one character. -/
def after (p : Position) (c : Char) : Position :=
  if c = '\n' then ⟨p.line + 1, 1⟩ else ⟨p.line, p.column + 1⟩

/-- The place after the first characters of a text. -/
def ofOffset (text : List Char) (offset : Nat) : Position :=
  (text.take offset).foldl after ⟨1, 1⟩

/-- The places after the first characters of a text, for every number of them. -/
def table (text : List Char) : Array Position :=
  let extend (places : Array Position × Position) (c : Char) :=
    let next := places.2.after c
    (places.1.push next, next)
  (text.foldl extend (#[⟨1, 1⟩], ⟨1, 1⟩)).1

end Position

/-- What is wrong with a document. -/
inductive Fault where
  | endOfStream
  | noRoot
  | unclosedRoot
  | documentType
  | declaration
  | invalidName
  | closeTag (expected actual : String)
  | unknownPrefix (name : String)
  | unknownEntity (name : String)
  | malformedReference
  | attributeTwice (name : String)
  | namespaceTwice (name : String)
  | character (c : Char)
  | comment
  | characterData
  | unknownToken
  | expectedChar (expected actual : Char)
  | expectedSpace (actual : Char)
  | expectedQuote (actual : Char)
  | expectedText (text : String)
  | xmlPrefixUri
  | xmlUri
  | xmlnsUri
  | xmlnsPrefix
deriving DecidableEq, Repr

namespace Fault

/-- Faults of a document as a whole have no place in it. -/
def hasPlace : Fault → Bool
  | endOfStream | noRoot | unclosedRoot | documentType => false
  | _ => true

/-- The first byte of a character's UTF-8 form, as a character of that number. -/
def leadByte (c : Char) : Char :=
  let n := c.toNat
  if n < 0x80 then c
  else if n < 0x800 then Char.ofNat (0xC0 + n / 0x40)
  else if n < 0x10000 then Char.ofNat (0xE0 + n / 0x1000)
  else Char.ofNat (0xF0 + n / 0x40000)

/-- The number of a character that no document may hold, as an escape. -/
def escaped (c : Char) : String :=
  if c.toNat = 0 then "\\0"
  else "\\u\x7b" ++ String.ofList (Nat.toDigits 16 c.toNat) ++ "\x7d"

/-- The wording of a fault at a place. -/
def message (fault : Fault) (place : String) : String :=
  match fault with
  | endOfStream => "unexpected end of stream"
  | noRoot => "the document does not have a root node"
  | unclosedRoot => "the root node was opened but never closed"
  | documentType => "XML with DTD detected"
  | declaration => "unexpected XML declaration at " ++ place
  | invalidName => "invalid name token at " ++ place
  | closeTag expected actual =>
      "expected '" ++ expected ++ "' tag, not '" ++ actual ++ "' at " ++ place
  | unknownPrefix name => "an unknown namespace prefix '" ++ name ++ "' at " ++ place
  | unknownEntity name => "unknown entity reference '" ++ name ++ "' at " ++ place
  | malformedReference => "malformed entity reference at " ++ place
  | attributeTwice name => "attribute '" ++ name ++ "' at " ++ place ++ " is already defined"
  | namespaceTwice name => "namespace '" ++ name ++ "' at " ++ place ++ " is already defined"
  | character c => "a non-XML character '" ++ escaped c ++ "' found at " ++ place
  | comment => "comment at " ++ place ++ " contains '--'"
  | characterData => "']]>' at " ++ place ++ " is not allowed inside a character data"
  | unknownToken => "unknown token at " ++ place
  | expectedChar expected actual =>
      "expected '" ++ expected.toString ++ "' not '" ++ (leadByte actual).toString ++
        "' at " ++ place
  | expectedSpace actual =>
      "expected a whitespace not '" ++ (leadByte actual).toString ++ "' at " ++ place
  | expectedQuote actual =>
      "expected a quote not '" ++ (leadByte actual).toString ++ "' at " ++ place
  | expectedText text => "expected '" ++ text ++ "' at " ++ place
  | xmlPrefixUri => "'xml' namespace prefix mapped to wrong URI at " ++ place
  | xmlUri => "the 'xml' namespace URI is used for not 'xml' prefix at " ++ place
  | xmlnsUri => "the 'xmlns' URI is used at " ++ place ++ ", but it must not be declared"
  | xmlnsPrefix => "the 'xmlns' prefix is used at " ++ place ++ ", but it must not be"

end Fault

/-- A fault and the number of characters before its place. -/
structure ScanError where
  fault : Fault
  offset : Nat
deriving DecidableEq, Repr

/-- A fault and its place. -/
structure Error where
  fault : Fault
  position : Position
deriving DecidableEq, Repr

namespace Error

/-- The place of a fault in the text of its document. -/
def ofScan (text : List Char) (e : ScanError) : Error :=
  ⟨e.fault, if e.fault.hasPlace then Position.ofOffset text e.offset else ⟨1, 1⟩⟩

def message (e : Error) : String :=
  e.fault.message e.position.text

end Error

end LearningStore.Xml
