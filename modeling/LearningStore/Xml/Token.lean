import LearningStore.Xml.Character
import LearningStore.Xml.Error

/-!
# Tokens of XML

A document is a sequence of tokens: the pieces of tags, runs of text, comments and
processing instructions.  `Token.scan` gives the tokens up to the end of the text
or up to the first fault, whichever comes first.  References inside text and
attribute values are left as they are written.
-/

namespace LearningStore.Xml

/-- A name as it is written: what stands before the colon, if there is one, and
what stands after it. -/
structure QName where
  qualifier : String
  localName : String
deriving DecidableEq, Repr

namespace QName

/-- The name as it is written. -/
def text (name : QName) : String :=
  if name.qualifier.isEmpty then name.localName else name.qualifier ++ ":" ++ name.localName

/-- The name that a run of name characters spells, if it is one. -/
def ofRun? (run : List Char) : Option QName :=
  let front := run.takeWhile (· != ':')
  match run.dropWhile (· != ':') with
  | [] => if beginsName front then some ⟨"", String.ofList front⟩ else none
  | _ :: back =>
      if !back.contains ':' && (front.isEmpty || beginsName front) && beginsName back then
        some ⟨String.ofList front, String.ofList back⟩
      else none

end QName

/-- A stretch of a text by the numbers of characters before its ends. -/
structure Span where
  start : Nat
  stop : Nat
deriving DecidableEq, Repr

inductive Token where
  | startTag (start : Nat) (name : QName)
  | attribute (start : Nat) (name : QName) (valueStart : Nat) (raw : List Char)
  | tagEnd (opened : Bool) (stop : Nat)
  | endTag (span : Span) (name : QName)
  | text (span : Span) (raw : List Char)
  | cdata (span : Span) (raw : List Char)
  | comment (span : Span)
  | instruction (span : Span)
deriving DecidableEq, Repr

/-- A place in a text: the number of characters before it, and the rest. -/
structure Cursor where
  offset : Nat
  rest : List Char
deriving DecidableEq, Repr

namespace Cursor

def advance (c : Cursor) (n : Nat) : Cursor :=
  ⟨c.offset + n, c.rest.drop n⟩

def atEnd (c : Cursor) : Bool :=
  c.rest.isEmpty

def startsWith (c : Cursor) (text : String) : Bool :=
  text.toList.isPrefixOf c.rest

def startsWithSpace (c : Cursor) : Bool :=
  match c.rest with
  | [] => false
  | d :: _ => isSpace d

def skipSpaces (c : Cursor) : Cursor :=
  ⟨c.offset + (c.rest.takeWhile isSpace).length, c.rest.dropWhile isSpace⟩

def fail {α : Type} (c : Cursor) (fault : Fault) : Except ScanError α :=
  .error ⟨fault, c.offset⟩

/-- Past an expected character. -/
def skipChar (c : Cursor) (expected : Char) : Except ScanError Cursor :=
  match c.rest with
  | [] => c.fail .endOfStream
  | d :: _ => if d = expected then .ok (c.advance 1) else c.fail (.expectedChar expected d)

/-- Past an expected text. -/
def skipText (c : Cursor) (text : String) : Except ScanError Cursor :=
  if c.startsWith text then .ok (c.advance text.length) else c.fail (.expectedText text)

/-- The characters up to the first place where `stop` holds of the rest, all of
which a document must be allowed to hold. -/
def takeUntil (stop : List Char → Bool) (offset : Nat) : List Char →
    Except ScanError (List Char × Cursor)
  | [] => .ok ([], ⟨offset, []⟩)
  | c :: rest =>
      if !isXmlChar c then .error ⟨.character c, offset⟩
      else if stop (c :: rest) then .ok ([], ⟨offset, c :: rest⟩)
      else
        match takeUntil stop (offset + 1) rest with
        | .error e => .error e
        | .ok (taken, after) => .ok (c :: taken, after)

/-- The characters up to the first place where a text begins. -/
def takeUntilText (c : Cursor) (text : String) : Except ScanError (List Char × Cursor) :=
  takeUntil text.toList.isPrefixOf c.offset c.rest

/-- A name with at most one colon. -/
def qname (c : Cursor) : Except ScanError (QName × Cursor) :=
  let run := c.rest.takeWhile isNameChar
  match QName.ofRun? run with
  | some name => .ok (name, c.advance run.length)
  | none => c.fail .invalidName

/-- The target of a processing instruction. -/
def target (c : Cursor) : Except ScanError (Unit × Cursor) :=
  let run := c.rest.takeWhile isNameChar
  if beginsName run then .ok ((), c.advance run.length) else c.fail .invalidName

/-- The quotation mark at a place. -/
def quote (c : Cursor) : Except ScanError (Char × Cursor) :=
  match c.rest with
  | [] => c.fail .endOfStream
  | d :: _ => if d = '\'' ∨ d = '"' then .ok (d, c.advance 1) else c.fail (.expectedQuote d)

/-- A name, an equals sign and a quoted value without a less-than sign. -/
def attributeToken (c : Cursor) : Except ScanError (Token × Cursor) := do
  let (name, after) ← c.qname
  let after ← after.skipSpaces.skipChar '='
  let (mark, valueAt) ← after.skipSpaces.quote
  let (raw, after) ← takeUntil (fun rest => rest.head? = some mark || rest.head? = some '<')
    valueAt.offset valueAt.rest
  let after ← after.skipChar mark
  pure (.attribute c.offset name valueAt.offset raw, after)

/-- A comment.  Two hyphens in a row may only stand at its end. -/
def commentToken (c : Cursor) : Except ScanError (Token × Cursor) := do
  let (raw, after) ← (c.advance 4).takeUntilText "-->"
  let stop ← after.skipText "-->"
  if hasDoubleHyphen raw then c.fail .comment
  else pure (.comment ⟨c.offset, stop.offset⟩, stop)
where
  /-- Two hyphens inside, or one at the very end. -/
  hasDoubleHyphen : List Char → Bool
    | [] => false
    | ['-'] => true
    | c :: rest => (c = '-' && rest.head? = some '-') || hasDoubleHyphen rest

/-- A processing instruction, which may not look like an XML declaration. -/
def instructionToken (c : Cursor) : Except ScanError (Token × Cursor) := do
  if c.startsWith "<?xml " then c.fail .declaration
  else
    let ((), after) ← (c.advance 2).target
    let (_, after) ← after.skipSpaces.takeUntilText "?>"
    let stop ← after.skipText "?>"
    pure (.instruction ⟨c.offset, stop.offset⟩, stop)

/-- A section whose text is taken as it is. -/
def cdataToken (c : Cursor) : Except ScanError (Token × Cursor) := do
  let (raw, after) ← (c.advance 9).takeUntilText "]]>"
  let stop ← after.skipText "]]>"
  pure (.cdata ⟨c.offset, stop.offset⟩ raw, stop)

/-- Whether the end mark of a section stands inside a text. -/
def holdsSectionEnd : List Char → Bool
  | [] => false
  | c :: rest => "]]>".toList.isPrefixOf (c :: rest) || holdsSectionEnd rest

/-- The characters up to the next tag. -/
def textToken (c : Cursor) : Except ScanError (Token × Cursor) := do
  let (raw, stop) ← takeUntil (fun rest => rest.head? = some '<') c.offset c.rest
  if holdsSectionEnd raw then stop.fail .characterData
  else pure (.text ⟨c.offset, stop.offset⟩ raw, stop)

/-- The beginning of a start tag, up to the end of its name. -/
def startTagToken (c : Cursor) : Except ScanError (Token × Cursor) := do
  let (name, after) ← (c.advance 1).qname
  pure (.startTag c.offset name, after)

/-- An end tag. -/
def endTagToken (c : Cursor) : Except ScanError (Token × Cursor) := do
  let (name, after) ← (c.advance 2).qname
  let stop ← after.skipSpaces.skipChar '>'
  pure (.endTag ⟨c.offset, stop.offset⟩ name, stop)

/-- The blanks between the parts of a declaration. -/
def declarationSpace (c : Cursor) : Except ScanError Cursor :=
  match c.rest with
  | [] => .ok c
  | d :: _ =>
      if isSpace d then .ok c.skipSpaces
      else if c.startsWith "?>" then .ok c
      else c.fail (.expectedSpace d)

/-- Past an optional part of a declaration. -/
def declarationPart (c : Cursor) (name : String) : Except ScanError Cursor :=
  if c.startsWith name then do
    let (_, after) ← c.attributeToken
    after.declarationSpace
  else .ok c

/-- Past an XML declaration, if the text begins with one: a version, then an
optional encoding and an optional note on external markup. -/
def skipDeclaration (c : Cursor) : Except ScanError Cursor :=
  if c.startsWith "<?xml " then do
    let c ← (c.advance 5).declarationSpace
    let _ ← c.skipText "version"
    let (_, c) ← c.attributeToken
    let c ← c.declarationSpace
    let c ← c.declarationPart "encoding"
    if c.startsWith "standalone" then
      let (_, c) ← c.attributeToken
      c.skipSpaces.skipText "?>"
    else c.skipSpaces.skipText "?>"
  else .ok c

/-- Past a byte order mark at the beginning. -/
def skipMark (c : Cursor) : Cursor :=
  match c.rest with
  | '\ufeff' :: _ => c.advance 1
  | _ => c

end Cursor

/-- What a scanner is inside of.  The number counts the open elements. -/
inductive Region where
  | prologue
  | tag (depth : Nat)
  | content (depth : Nat)
  | epilogue
deriving DecidableEq, Repr

/-- The outcome of one step: the end, a fault, or a token. -/
inductive Step where
  | finished
  | failed (e : ScanError)
  | scanned (token : Token) (region : Region) (after : Cursor)

namespace Step

/-- The step of a scan that leads into a region. -/
def ofScan (region : Region) : Except ScanError (Token × Cursor) → Step
  | .error e => failed e
  | .ok (token, after) => scanned token region after

/-- Content goes on inside the elements that are still open. -/
def within : Nat → Region
  | 0 => .epilogue
  | depth + 1 => .content (depth + 1)

/-- A step before the root element. -/
def inPrologue (c : Cursor) : Step :=
  let c := c.skipSpaces
  if c.atEnd then finished
  else if c.startsWith "<!--" then ofScan .prologue c.commentToken
  else if c.startsWith "<?" then ofScan .prologue c.instructionToken
  else if c.startsWith "<!DOCTYPE" then failed ⟨.documentType, c.offset⟩
  else if c.startsWith "<" then ofScan (.tag 0) c.startTagToken
  else failed ⟨.unknownToken, c.offset⟩

/-- A step after the root element. -/
def inEpilogue (c : Cursor) : Step :=
  let c := c.skipSpaces
  if c.atEnd then finished
  else if c.startsWith "<!--" then ofScan .epilogue c.commentToken
  else if c.startsWith "<?" then ofScan .epilogue c.instructionToken
  else failed ⟨.unknownToken, c.offset⟩

/-- A step inside a start tag.  An attribute needs a blank before it.  A text may end
right behind a name or a value, but not behind a blank. -/
def inTag (depth : Nat) (c : Cursor) : Step :=
  let s := c.skipSpaces
  match s.rest with
  | [] => if c.atEnd then finished else failed ⟨.endOfStream, s.offset⟩
  | '/' :: _ =>
      match (s.advance 1).skipChar '>' with
      | .error e => failed e
      | .ok stop => scanned (.tagEnd false stop.offset) (within depth) stop
  | '>' :: _ => scanned (.tagEnd true (s.offset + 1)) (.content (depth + 1)) (s.advance 1)
  | d :: _ =>
      if c.startsWithSpace then ofScan (.tag depth) s.attributeToken
      else failed ⟨.expectedSpace d, s.offset⟩

/-- A step inside an element. -/
def inContent (depth : Nat) (c : Cursor) : Step :=
  match c.rest with
  | [] => finished
  | ['<'] => failed ⟨.unknownToken, c.offset⟩
  | '<' :: '!' :: _ =>
      if c.startsWith "<!--" then ofScan (.content depth) c.commentToken
      else if c.startsWith "<![CDATA[" then ofScan (.content depth) c.cdataToken
      else failed ⟨.unknownToken, c.offset⟩
  | '<' :: '?' :: _ => ofScan (.content depth) c.instructionToken
  | '<' :: '/' :: _ => ofScan (within (depth - 1)) c.endTagToken
  | '<' :: _ => ofScan (.tag depth) c.startTagToken
  | _ => ofScan (.content depth) c.textToken

def next (region : Region) (c : Cursor) : Step :=
  match region with
  | .prologue => inPrologue c
  | .tag depth => inTag depth c
  | .content depth => inContent depth c
  | .epilogue => inEpilogue c

end Step

/-- The tokens of a text and the fault that ended them, if one did. -/
structure Scanned where
  tokens : List Token
  fault : Option ScanError
deriving DecidableEq, Repr

namespace Token

/-- The tokens from a place on.  Every step takes at least one character, so the
number of characters bounds the number of steps. -/
def scanFrom : Nat → Region → Cursor → Scanned
  | 0, _, _ => ⟨[], none⟩
  | bound + 1, region, c =>
      match Step.next region c with
      | .finished => ⟨[], none⟩
      | .failed e => ⟨[], some e⟩
      | .scanned token region after =>
          let rest := scanFrom bound region after
          ⟨token :: rest.tokens, rest.fault⟩

/-- The tokens of a document. -/
def scan (text : List Char) : Scanned :=
  match (Cursor.skipMark ⟨0, text⟩).skipDeclaration with
  | .error e => ⟨[], some e⟩
  | .ok c => scanFrom (c.rest.length + 1) .prologue c

end Token

end LearningStore.Xml
