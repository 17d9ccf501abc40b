import LearningStore.Schema.Subject
import LearningStore.Value.Literal
import LearningStore.Xml.Document

/-!
# Problems of a schema

Everything that can be wrong with a schema file or with the schema that several
files make, as a cause with a wording, and where it was found.  A failed pass
reports all the problems it found, and never none.
-/

namespace LearningStore.Schema

open LearningStore.Value

/-- The namespace of every structural element of a schema file. -/
def schemaNamespace : String :=
  "urn:schemas-microsoft-com:learning-components:learning-store-schema"

/-- A place in a schema file. -/
structure Location where
  file : String
  line : Nat
  column : Nat
deriving DecidableEq, Repr

namespace Location

def text (l : Location) : String :=
  l.file ++ "(" ++ toString l.line ++ "," ++ toString l.column ++ ")"

end Location

/-- What is wrong. -/
inductive Cause where
  /- The file is no XML document. -/
  | malformed (error : Xml.Error)
  /- The structure of the file. -/
  | wrongRoot
  | attributeNotAllowed (name element : String)
  | attributeMissing (element name : String)
  | elementNotAllowed (name parent : String)
  | elementRepeated (parent name : String)
  | textNotAllowed (element : String)
  | statementEmpty (element : String)
  | implementationMissing (view : String)
  /- Attribute values. -/
  | invalidName (name : String)
  | notBoolean (name value : String)
  | notInteger (name value : String)
  | unknownType (name : String)
  | referenceMissing (subject : Subject) (type : ValueType) (name : String)
  | referenceNotAllowed (subject : Subject) (name : String) (type : ValueType)
  | reservedId (subject : Subject)
  | lengthOutOfRange (subject : Subject) (limit : Int)
  | lengthNotAllowed (subject : Subject)
  | rowGuidNotAllowed (subject : Subject)
  | cascadeNotAllowed (subject : Subject)
  /- Default values. -/
  | nullDefault (subject : Subject)
  | defaultEmpty (subject : Subject)
  | defaultInvalid (subject : Subject) (error : LiteralError)
  /- Names within one element. -/
  | valueRepeated (enum name : String)
  | propertyRepeated (itemType name : String)
  | parameterRepeated (right name : String)
  /- Declarations and extensions. -/
  | nameTaken (name : String) (previous : Location)
  | noItemTypeToExtend (name : String)
  | noViewToExtend (name : String)
  | noRightToExtend (name : String)
  | propertyTaken (itemType name : String)
  | noPropertyToExtend (itemType name : String)
  | parameterTaken (right name : String)
  | noParameterToExtend (name right : String)
  /- References. -/
  | unknownItemType (subject : Subject) (name : String)
  | unknownEnum (subject : Subject) (name : String)
  | unknownEnumValue (value : Int) (subject : Subject) (enum : String)
  /- A cause known by its wording alone. -/
  | stated (message : String)
deriving DecidableEq, Repr

namespace Cause

open LearningStore.Text

/-- The wording of a cause. -/
def message : Cause → String
  | malformed error => error.message
  | wrongRoot => "root element must be <StoreSchema xmlns=\"" ++ schemaNamespace ++ "\">"
  | attributeNotAllowed name element =>
      "attribute '" ++ name ++ "' is not allowed on <" ++ element ++ ">"
  | attributeMissing element name =>
      "<" ++ element ++ "> is missing required attribute '" ++ name ++ "'"
  | elementNotAllowed name parent =>
      "element <" ++ name ++ "> is not allowed in <" ++ parent ++ ">"
  | elementRepeated parent name =>
      "<" ++ parent ++ "> may contain at most one <" ++ name ++ ">"
  | textNotAllowed element => "<" ++ element ++ "> cannot contain text"
  | statementEmpty element => "<" ++ element ++ "> must not be empty"
  | implementationMissing view => "view " ++ view ++ " has no <Implementation>"
  | invalidName name => "'" ++ name ++ "' is not a valid name"
  | notBoolean name value =>
      "attribute '" ++ name ++ "' must be true or false, not '" ++ value ++ "'"
  | notInteger name value =>
      "attribute '" ++ name ++ "' must be a 32-bit integer, not '" ++ value ++ "'"
  | unknownType name => "'" ++ name ++ "' is not a valid value type"
  | referenceMissing subject type name =>
      subject.describe ++ " has type " ++ type.schemaName ++ " but no '" ++ name ++
        "' attribute"
  | referenceNotAllowed subject name type =>
      subject.describe ++ " has a '" ++ name ++ "' attribute but is not of type " ++
        type.schemaName
  | reservedId subject =>
      subject.describe ++ ": 'Id' is reserved for the item identifier column"
  | lengthOutOfRange subject limit =>
      subject.describe ++ ": Length must be between 1 and " ++ integerText limit
  | lengthNotAllowed subject =>
      subject.describe ++ ": Length is only allowed on String and ByteArray properties"
  | rowGuidNotAllowed subject =>
      subject.describe ++ ": RowGuid is only allowed on Guid properties"
  | cascadeNotAllowed subject =>
      subject.describe ++ ": CascadeDelete is only allowed on ItemIdentifier properties"
  | nullDefault subject => subject.describe ++ " has a null default but is not nullable"
  | defaultEmpty subject => subject.describe ++ " has a <Default> without a value"
  | defaultInvalid subject error =>
      subject.describe ++ " has an invalid default value: " ++ error.message
  | valueRepeated enum name =>
      "enum " ++ enum ++ " has more than one value named " ++ name
  | propertyRepeated itemType name =>
      "item type " ++ itemType ++ " has more than one property named " ++ name
  | parameterRepeated right name =>
      "right " ++ right ++ " has more than one parameter named " ++ name
  | nameTaken name previous =>
      "the name " ++ name ++ " is already used by the element at " ++ previous.text
  | noItemTypeToExtend name => "cannot extend item type " ++ name ++ ": it does not exist"
  | noViewToExtend name => "cannot extend view " ++ name ++ ": it does not exist"
  | noRightToExtend name => "cannot extend right " ++ name ++ ": it does not exist"
  | propertyTaken itemType name =>
      "item type " ++ itemType ++ " already has a property named " ++ name
  | noPropertyToExtend itemType name =>
      "cannot extend property " ++ itemType ++ "." ++ name ++ ": it does not exist"
  | parameterTaken right name =>
      "right " ++ right ++ " already has a parameter named " ++ name
  | noParameterToExtend name right =>
      "cannot extend parameter " ++ name ++ " of right " ++ right ++ ": it does not exist"
  | unknownItemType subject name =>
      subject.describe ++ " refers to item type " ++ name ++ ", which does not exist"
  | unknownEnum subject name =>
      subject.describe ++ " refers to enum " ++ name ++ ", which does not exist"
  | unknownEnumValue value subject enum =>
      "the default value " ++ integerText value ++ " of " ++ subject.describe ++
        " is not a value of enum " ++ enum
  | stated message => message

end Cause

/-- A cause and the place where it was found, if it has one. -/
structure Problem where
  location : Option Location
  cause : Cause
deriving DecidableEq, Repr

namespace Problem

def message (p : Problem) : String :=
  p.cause.message

/-- The line that reports a problem. -/
def text (p : Problem) : String :=
  match p.location with
  | some location => location.text ++ ": error: " ++ p.message
  | none => "error: " ++ p.message

end Problem

/-- The problems of a failed pass, of which there is at least one. -/
structure Problems where
  first : Problem
  others : List Problem
deriving DecidableEq, Repr

namespace Problems

/-- The problems of a list, if it has any. -/
def ofList? : List Problem → Option Problems
  | [] => none
  | first :: others => some ⟨first, others⟩

def single (p : Problem) : Problems := ⟨p, []⟩

def toList (ps : Problems) : List Problem :=
  ps.first :: ps.others

def size (ps : Problems) : Nat :=
  ps.others.length + 1

/-- Whether the wording of some problem contains a text. -/
def mentions (ps : Problems) (needle : String) : Bool :=
  ps.toList.any fun p => Text.occursIn needle.toList p.message.toList

/-- All problems, one on a line. -/
def text (ps : Problems) : String :=
  "\n".intercalate (ps.toList.map Problem.text)

end Problems

end LearningStore.Schema
