import LearningStore.Xml.Reference
import LearningStore.Xml.Token

/-!
# Documents

A document is a tree of elements with text, comments and processing instructions
between them.  Names are expanded: the part before a colon gives way to the
namespace it stands for.  Text and sections that touch are one piece of text,
which is placed where its first part is.
-/

namespace LearningStore.Xml

open LearningStore.Text

/-- A local name in a namespace, or in none. -/
structure ExpandedName where
  uri : Option String
  localName : String
deriving DecidableEq, Repr

structure Attribute where
  name : ExpandedName
  value : String
deriving DecidableEq, Repr

/-- An element without its content. -/
structure Tag where
  span : Span
  name : ExpandedName
  attributes : List Attribute
deriving DecidableEq, Repr

inductive Node where
  | element (tag : Tag) (children : List Node)
  | text (span : Span) (content : List Char)
  | comment (span : Span)
  | instruction (span : Span)
deriving Repr

namespace Node

/-- Where a node stands in the text of its document. -/
def span : Node → Span
  | element tag _ => tag.span
  | text span _ => span
  | comment span => span
  | instruction span => span

end Node

structure Element where
  tag : Tag
  children : List Node
deriving Repr

namespace Element

def name (e : Element) : String :=
  e.tag.name.localName

/-- The child elements. -/
def elements (e : Element) : List Element :=
  e.children.filterMap fun
    | .element tag children => some ⟨tag, children⟩
    | _ => none

/-- The child elements with a local name. -/
def named (e : Element) (name : String) : List Element :=
  e.elements.filter fun child => child.name == name

/-- The first child element with a local name. -/
def first? (e : Element) (name : String) : Option Element :=
  e.elements.find? fun child => child.name == name

/-- The value of an attribute that is in no namespace. -/
def attribute? (e : Element) (name : String) : Option String :=
  (e.tag.attributes.find? fun a => a.name == ⟨none, name⟩).map Attribute.value

/-- The text right inside an element. -/
def text (e : Element) : String :=
  String.ofList (e.children.flatMap fun
    | .text _ content => content
    | _ => [])

end Element

/-- The namespace of the attributes that XML itself defines. -/
def xmlUri : String := "http://www.w3.org/XML/1998/namespace"

/-- The namespace of namespace declarations. -/
def xmlnsUri : String := "http://www.w3.org/2000/xmlns/"

/-- A namespace for a qualifier, or for names without one. -/
structure Binding where
  qualifier : Option String
  uri : String
deriving DecidableEq, Repr

/-- An attribute whose name is not expanded yet. -/
structure PlainAttribute where
  start : Nat
  name : QName
  value : String
deriving DecidableEq, Repr

/-- A start tag that has not ended: its own namespaces and its other attributes. -/
structure Opening where
  start : Nat
  name : QName
  bindings : List Binding
  attributes : List PlainAttribute
deriving DecidableEq, Repr

/-- An element whose end tag is still to come, with its children so far, the last
one first, and the namespaces that hold inside it. -/
structure OpenElement where
  tag : Tag
  written : QName
  bindings : List Binding
  children : List Node
deriving Repr

/-- The part of a document that has been read. -/
structure Partial where
  opening : Option Opening
  ancestors : List OpenElement
  root : Option Element
deriving Repr

namespace Partial

def empty : Partial := ⟨none, [], none⟩

/-- The namespaces that hold at this place. -/
def bindings (p : Partial) : List Binding :=
  match p.ancestors with
  | [] => []
  | parent :: _ => parent.bindings

/-- Add a node where the document is being read.  Outside the root element only
that element counts. -/
def add (p : Partial) (node : Node) : Partial :=
  match p.ancestors with
  | parent :: rest =>
      { p with ancestors := { parent with children := node :: parent.children } :: rest }
  | [] =>
      match node with
      | .element tag children => { p with root := some ⟨tag, children⟩ }
      | _ => p

/-- Add text, to the text right before it if there is some. -/
def addText (p : Partial) (span : Span) (content : List Char) : Partial :=
  match p.ancestors with
  | [] => p
  | parent :: rest =>
      let children := match parent.children with
        | .text first before :: older => .text first (before ++ content) :: older
        | children => .text span content :: children
      { p with ancestors := { parent with children } :: rest }

/-- The namespace of a qualifier, or of its absence, among bindings. -/
def lookup (bindings : List Binding) (qualifier : String) : Option String :=
  let wanted := if qualifier.isEmpty then none else some qualifier
  (bindings.find? fun b => b.qualifier == wanted).map Binding.uri

/-- Expand the qualifier of a name.  A qualifier needs a binding; its absence does
not. -/
def expand (bindings : List Binding) (offset : Nat) (name : QName) :
    Except ScanError ExpandedName :=
  match lookup bindings name.qualifier with
  | some uri => .ok ⟨some uri, name.localName⟩
  | none =>
      if name.qualifier.isEmpty then .ok ⟨none, name.localName⟩
      else .error ⟨.unknownPrefix name.qualifier, offset⟩

/-- Expand the name of an attribute.  Without a qualifier it is in no namespace. -/
def expandAttribute (bindings : List Binding) (a : PlainAttribute) :
    Except ScanError Attribute :=
  if a.name.qualifier = "xml" then .ok ⟨⟨some xmlUri, a.name.localName⟩, a.value⟩
  else if a.name.qualifier.isEmpty then .ok ⟨⟨none, a.name.localName⟩, a.value⟩
  else (expand bindings a.start a.name).map fun name => ⟨name, a.value⟩

/-- Expand the attributes of a tag after those in `before`, no two of which may
have one name. -/
def expandAttributes (bindings : List Binding) (before : List Attribute) :
    List PlainAttribute → Except ScanError (List Attribute)
  | [] => .ok before
  | a :: rest =>
      match expandAttribute bindings a with
      | .error e => .error e
      | .ok expanded =>
          if before.any fun b => b.name == expanded.name then
            .error ⟨.attributeTwice a.name.localName, a.start⟩
          else expandAttributes bindings (before ++ [expanded]) rest

/-- A namespace declaration for a qualifier. -/
def declare (o : Opening) (start : Nat) (qualifier uri : String) :
    Except ScanError Opening :=
  if uri = xmlnsUri then .error ⟨.xmlnsUri, start⟩
  else if qualifier = "xml" && uri != xmlUri then .error ⟨.xmlPrefixUri, start⟩
  else if qualifier != "xml" && uri == xmlUri then .error ⟨.xmlUri, start⟩
  else if o.bindings.any fun b => b.qualifier == some qualifier then
    .error ⟨.namespaceTwice qualifier, start⟩
  else if uri = xmlUri then .ok o
  else .ok { o with bindings := o.bindings ++ [⟨some qualifier, uri⟩] }

/-- A namespace declaration for names without a qualifier. -/
def declareDefault (o : Opening) (start : Nat) (uri : String) : Except ScanError Opening :=
  if uri = xmlUri then .error ⟨.xmlUri, start⟩
  else if uri = xmlnsUri then .error ⟨.xmlnsUri, start⟩
  else .ok { o with bindings := o.bindings ++ [⟨none, uri⟩] }

/-- An attribute of the tag that is being read. -/
def addAttribute (o : Opening) (start : Nat) (name : QName) (valueStart : Nat)
    (raw : List Char) : Except ScanError Opening :=
  match Piece.ofRaw 0 valueStart raw with
  | .error e => .error e
  | .ok pieces =>
      let value := String.ofList (Piece.attributeValue pieces)
      if name.qualifier = "xmlns" then declare o start name.localName value
      else if name.localName = "xmlns" then declareDefault o start value
      else .ok { o with attributes := o.attributes ++ [⟨start, name, value⟩] }

/-- The end of a start tag: its names are expanded, the attributes' first. -/
def endTag (p : Partial) (o : Opening) (opened : Bool) (stop : Nat) :
    Except ScanError Partial :=
  let bindings := o.bindings ++ p.bindings
  match expandAttributes bindings [] o.attributes with
  | .error e => .error e
  | .ok attributes =>
      match expand bindings (o.start + 1) o.name with
      | .error e => .error e
      | .ok name =>
          let p := { p with opening := none }
          let tag : Tag := ⟨⟨o.start, stop⟩, name, attributes⟩
          if opened then .ok { p with ancestors := ⟨tag, o.name, bindings, []⟩ :: p.ancestors }
          else .ok (p.add (.element tag []))

/-- The end tag of an element has to repeat its name as it was written. -/
def close (p : Partial) (span : Span) (name : QName) : Except ScanError Partial :=
  match p.ancestors with
  | [] => .ok p
  | e :: rest =>
      if name = e.written then
        let tag := { e.tag with span := ⟨e.tag.span.start, span.stop⟩ }
        .ok ({ p with ancestors := rest }.add (.element tag e.children.reverse))
      else .error ⟨.closeTag e.written.text name.text, span.start⟩

/-- Read one token. -/
def step (p : Partial) : Token → Except ScanError Partial
  | .startTag start name =>
      if name.qualifier = "xmlns" then .error ⟨.xmlnsPrefix, start + 1⟩
      else .ok { p with opening := some ⟨start, name, [], []⟩ }
  | .attribute start name valueStart raw =>
      match p.opening with
      | none => .ok p
      | some o =>
          (addAttribute o start name valueStart raw).map fun o => { p with opening := some o }
  | .tagEnd opened stop =>
      match p.opening with
      | none => .ok p
      | some o => p.endTag o opened stop
  | .endTag span name => p.close span name
  | .text span raw =>
      (Piece.ofRaw 0 span.start raw).map fun pieces =>
        p.addText span (Piece.textValue [] false pieces)
  | .cdata span raw =>
      .ok (p.addText span (Piece.textValue [] false (raw.map Piece.written)))
  | .comment span => .ok (p.add (.comment span))
  | .instruction span => .ok (p.add (.instruction span))

/-- Read tokens in order, up to the first fault. -/
def run (p : Partial) : List Token → Except ScanError Partial
  | [] => .ok p
  | token :: rest =>
      match p.step token with
      | .error e => .error e
      | .ok p => p.run rest

end Partial

/-- A document: its text, the places in it, and its root element. -/
structure Document where
  text : List Char
  places : Array Position
  root : Element
deriving Repr

namespace Document

/-- The root element of a text.  A fault between two tokens comes before a fault
in the text after them; that an element is missing or open shows only at the end. -/
def rootOf (text : List Char) : Except ScanError Element :=
  let scanned := Token.scan text
  match Partial.empty.run scanned.tokens with
  | .error e => .error e
  | .ok p =>
      match scanned.fault with
      | some e => .error e
      | none =>
          match p.ancestors, p.root with
          | _ :: _, _ => .error ⟨.unclosedRoot, 0⟩
          | [], none => .error ⟨.noRoot, 0⟩
          | [], some root => .ok root

/-- The document that a text denotes. -/
def parse (text : String) : Except Error Document :=
  let chars := text.toList
  match rootOf chars with
  | .error e => .error (Error.ofScan chars e)
  | .ok root => .ok ⟨chars, Position.table chars, root⟩

/-- The source text of a stretch of a document. -/
def slice (d : Document) (span : Span) : List Char :=
  (d.text.drop span.start).take (span.stop - span.start)

/-- The source text from the first child of an element to the end of its last. -/
def inner (d : Document) (e : Element) : String :=
  match e.children.head?, e.children.getLast? with
  | some first, some last => String.ofList (d.slice ⟨first.span.start, last.span.stop⟩)
  | _, _ => ""

/-- Where an element or a piece of text begins. -/
def position (d : Document) (span : Span) : Position :=
  d.places.getD span.start ⟨1, 1⟩

end Document

end LearningStore.Xml
