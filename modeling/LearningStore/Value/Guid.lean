import LearningStore.Text.Letters

/-!
# Globally unique identifiers

An identifier is a number of 128 bits, written as 32 hexadecimal digits: in one
run, or in groups of 8, 4, 4, 4 and 12 with hyphens between them, which may stand
in braces or after `urn:uuid:`.
-/

namespace LearningStore.Value

open LearningStore.Text

/-- An identifier by its 32 hexadecimal digits, each below 16. -/
structure Guid where
  digits : List Nat
deriving DecidableEq, Repr

namespace Guid

/-- The lengths of the groups between hyphens. -/
def groups : List Nat := [8, 4, 4, 4, 12]

/-- The values of hexadecimal digits, if all characters are. -/
def hexDigits? : List Char → Option (List Nat)
  | [] => some []
  | c :: rest =>
      match hexValue? c, hexDigits? rest with
      | some n, some ns => some (n :: ns)
      | _, _ => none

/-- Read groups of hexadecimal digits with a hyphen between each two. -/
def grouped? : List Nat → List Char → Option (List Nat)
  | [], s => if s.isEmpty then some [] else none
  | [n], s => if s.length = n then hexDigits? s else none
  | n :: rest, s =>
      match s.drop n with
      | '-' :: tail =>
          match hexDigits? (s.take n), grouped? rest tail with
          | some front, some back => some (front ++ back)
          | _, _ => none
      | _ => none

/-- The text inside braces. -/
def unbraced? : List Char → Option (List Char)
  | '\x7b' :: rest => if rest.getLast? = some '\x7d' then some rest.dropLast else none
  | _ => none

/-- The text after the name of the identifier scheme, in either case. -/
def afterScheme? (s : List Char) : Option (List Char) :=
  let scheme := "urn:uuid:".toList
  if (s.take scheme.length).map lowerLetter = scheme then some (s.drop scheme.length)
  else none

/-- The identifier that a text denotes. -/
def read? (s : List Char) : Option Guid :=
  let digits? :=
    if s.length = 32 then hexDigits? s
    else
      match unbraced? s with
      | some inner => grouped? groups inner
      | none =>
          match afterScheme? s with
          | some inner => grouped? groups inner
          | none => grouped? groups s
  digits?.map Guid.mk

/-- A hexadecimal digit with a small letter. -/
def hexChar (n : Nat) : Char :=
  Nat.digitChar n

/-- The digits of an identifier in one run. -/
def plain (g : Guid) : String :=
  String.ofList (g.digits.map hexChar)

/-- Cut a list into groups. -/
def cut : List Nat → List Char → List (List Char)
  | [], _ => []
  | n :: rest, s => s.take n :: cut rest (s.drop n)

/-- The digits of an identifier in groups with hyphens between them. -/
def hyphenated (g : Guid) : String :=
  String.ofList (List.intercalate ['-'] (cut groups (g.digits.map hexChar)))

end Guid

end LearningStore.Value
