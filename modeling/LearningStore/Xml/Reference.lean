import LearningStore.Text.Letters
import LearningStore.Xml.Character
import LearningStore.Xml.Error

/-!
# References in text

An ampersand begins a reference to a character, by number or by one of five names.
What a run of text or an attribute value denotes depends on which characters are
written out and which are referred to: line ends and blanks are normalised only
where they are written out.
-/

namespace LearningStore.Xml

open LearningStore.Text

/-- A reference, and how many characters it takes after the ampersand. -/
inductive Reference where
  | char (c : Char) (used : Nat)
  | entity (name : String)
deriving DecidableEq, Repr

namespace Reference

/-- The character of a number; one beyond Unicode, or a surrogate, is replaced. -/
def charOfNumber (n : Nat) : Char :=
  if h : n.isValidChar then Char.ofNatAux n h else '\ufffd'

/-- A reference by number, `lead` characters into the reference. -/
def numbered? (base lead : Nat) (isDigitOf : Char → Bool) (s : List Char) :
    Option Reference :=
  let digits := s.takeWhile isDigitOf
  let n := digits.foldl (fun n c => base * n + (hexValue? c).getD 0) 0
  let c := charOfNumber n
  if digits.isEmpty || 0x100000000 ≤ n || !isXmlChar c then none
  else
    match s.dropWhile isDigitOf with
    | ';' :: _ => some (char c (lead + digits.length + 1))
    | _ => none

/-- The character that a name refers to in every document. -/
def predefined? : String → Option Char
  | "quot" => some '"'
  | "amp" => some '&'
  | "apos" => some '\''
  | "lt" => some '<'
  | "gt" => some '>'
  | _ => none

/-- A reference by name. -/
def named? (s : List Char) : Option Reference :=
  let run := s.takeWhile isNameChar
  if beginsName run then
    match s.dropWhile isNameChar with
    | ';' :: _ =>
        let name := String.ofList run
        match predefined? name with
        | some c => some (char c (run.length + 1))
        | none => some (entity name)
    | _ => none
  else none

/-- The reference after an ampersand. -/
def read? : List Char → Option Reference
  | '#' :: 'x' :: rest => numbered? 16 2 (fun c => (hexValue? c).isSome) rest
  | '#' :: rest => numbered? 10 1 isDigit rest
  | s => named? s

end Reference

/-- A character of a text, by whether it is written out or referred to. -/
inductive Piece where
  | written (c : Char)
  | referred (c : Char)
deriving DecidableEq, Repr

namespace Piece

/-- The characters of a text from an offset on.  `skip` characters belong to a
reference that has been read already. -/
def ofRaw (skip offset : Nat) : List Char → Except ScanError (List Piece)
  | [] => .ok []
  | c :: rest =>
      match skip with
      | skip + 1 => ofRaw skip (offset + 1) rest
      | 0 =>
          if c = '&' then
            match Reference.read? rest with
            | none => .error ⟨.malformedReference, offset⟩
            | some (.entity name) => .error ⟨.unknownEntity name, offset⟩
            | some (.char d used) => (ofRaw used (offset + 1) rest).map (referred d :: ·)
          else (ofRaw 0 (offset + 1) rest).map (written c :: ·)

/-- The value of an attribute: every blank written out is a space, a carriage
return and a line feed together being one. -/
def attributeValue : List Piece → List Char
  | [] => []
  | referred c :: rest => c :: attributeValue rest
  | written '\r' :: written '\n' :: rest => ' ' :: attributeValue rest
  | written c :: rest => (if isSpace c then ' ' else c) :: attributeValue rest

/-- Add a character written out to the text before it, which is in reverse order.
A carriage return counts as a line end once the character after it is known. -/
def addWritten (c : Char) (last : Bool) (before : List Char) : List Char :=
  match before with
  | '\r' :: older =>
      if c = '\n' then '\n' :: older
      else if last && c = '\r' then '\n' :: '\n' :: older
      else c :: '\n' :: older
  | before => if last && c = '\r' then '\n' :: before else c :: before

/-- The text of a run: every line end written out is a line feed.  A character
referred to is taken as it is, and so is the one right after it. -/
def textValue (before : List Char) (asIs : Bool) : List Piece → List Char
  | [] => before.reverse
  | referred c :: rest => textValue (c :: before) true rest
  | written c :: rest =>
      if asIs then textValue (c :: before) false rest
      else textValue (addWritten c rest.isEmpty before) false rest

end Piece

end LearningStore.Xml
