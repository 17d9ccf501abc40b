import LearningStore.Schema.Reading.Source

/-!
# Reading attributes

The values of attributes: names, truth values, integers, value types, and the
references that go with a value type.
-/

namespace LearningStore.Schema

open LearningStore.Text
open LearningStore.Value
open LearningStore.Xml

/-- Whether a character may begin a name. -/
def beginsName (c : Char) : Bool :=
  isLetter c || c == '_'

/-- Names become identifiers of SQL and of C#: letters A to Z, digits and
underscores, with no digit first. -/
def isName (name : String) : Bool :=
  match name.toList with
  | [] => false
  | c :: rest => beginsName c && rest.all fun d => beginsName d || isDigit d

namespace Source

/-- The name of an element.  That one is missing has been reported before. -/
def name (s : Source) (e : Element) : Checked String := do
  match e.attribute? "Name" with
  | none => pure ""
  | some name =>
      .reportIf (!isName name) (s.problem e (.invalidName name))
      pure name

/-- The truth value of an attribute. -/
def boolean (s : Source) (e : Element) (name : String) : Checked (Option Bool) := do
  match e.attribute? name with
  | none => pure none
  | some value =>
      let parsed := boolean? value.toList
      .reportIf parsed.isNone (s.problem e (.notBoolean name value))
      pure parsed

/-- The integer value of an attribute. -/
def integer (s : Source) (e : Element) (name : String) : Checked (Option Int) := do
  match e.attribute? name with
  | none => pure none
  | some value =>
      let parsed := Integer.read? (trim value.toList)
      .reportIf parsed.isNone (s.problem e (.notInteger name value))
      pure parsed

/-- The value type of an element. -/
def valueType (s : Source) (e : Element) : Checked (Option ValueType) := do
  match e.attribute? "Type" with
  | none => pure none
  | some name =>
      let parsed := ValueType.ofSchemaName? name
      .reportIf parsed.isNone (s.problem e (.unknownType name))
      pure parsed

/-- The reference in an attribute, which must be there exactly when the value type
is the expected one. -/
def reference (s : Source) (e : Element) (subject : Subject) (type : ValueType)
    (name : String) (expected : ValueType) : Checked (Option String) := do
  let value := e.attribute? name
  .reportIf (type == expected && value.isNone)
    (s.problem e (.referenceMissing subject expected name))
  .reportIf (type != expected && value.isSome)
    (s.problem e (.referenceNotAllowed subject name expected))
  pure value

/-- What is common to properties, columns and parameters, apart from the
documentation. -/
def references (s : Source) (e : Element) (subject : Subject) (type : ValueType) :
    Checked (Option String × Option String) := do
  let itemTypeName ←
    s.reference e subject type "ReferencedItemTypeName" .itemIdentifier
  let enumName ← s.reference e subject type "EnumName" .enumeration
  pure (itemTypeName, enumName)

end Source

end LearningStore.Schema
