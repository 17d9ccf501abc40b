import LearningStore.Text.Letters

/-!
# Value types

What a property, a column or a parameter can hold.  One descriptor per type fixes
its spelling in schema files, its code in the stored schema document, its SQL type
and its limit on lengths, so that a table column, a parameter of a function and a
default can never disagree about it.
-/

namespace LearningStore.Value

open LearningStore.Text

inductive ValueType where
  | itemIdentifier
  | string
  | boolean
  | dateTime
  | single
  | double
  | xml
  | enumeration
  | int32
  | byteArray
  | guid
deriving DecidableEq, Repr

/-- How a value type maps to a SQL type: one fixed type, or a type with a length
up to a limit and `max` beyond it or without a length. -/
inductive SqlType where
  | fixed (name : String)
  | sized (name : String) (inlineLimit : Int)
deriving DecidableEq, Repr

/-- What there is to know about one value type. -/
structure Descriptor where
  schemaName : String
  typeCode : Int
  sqlType : SqlType
  maxLength : Option Int
  docName : String

/-- The longest string that a property can declare, in characters. -/
def maxStringLength : Int := 1073741822

/-- The longest byte array that a property can declare, in bytes. -/
def maxByteArrayLength : Int := 2147483645

namespace ValueType

/-- The value types in the order of their codes. -/
def all : List ValueType :=
  [itemIdentifier, string, boolean, dateTime, single, double, xml, enumeration, int32,
    byteArray, guid]

def descriptor : ValueType → Descriptor
  | itemIdentifier => ⟨"ItemIdentifier", 1, .fixed "bigint", none, "Item identifier"⟩
  | string => ⟨"String", 2, .sized "nvarchar" 4000, some maxStringLength, "String"⟩
  | boolean => ⟨"Boolean", 3, .fixed "bit", none, "Boolean"⟩
  | dateTime => ⟨"DateTime", 4, .fixed "datetime", none, "DateTime"⟩
  | single => ⟨"Single", 5, .fixed "float(24)", none, "Single"⟩
  | double => ⟨"Double", 6, .fixed "float(53)", none, "Double"⟩
  | xml => ⟨"Xml", 7, .fixed "xml", none, "Xml"⟩
  | enumeration => ⟨"Enum", 8, .fixed "int", none, "Enumeration"⟩
  | int32 => ⟨"Int32", 9, .fixed "int", none, "Int32"⟩
  | byteArray =>
      ⟨"ByteArray", 10, .sized "varbinary" 8000, some maxByteArrayLength, "Byte array"⟩
  | guid => ⟨"Guid", 11, .fixed "uniqueidentifier", none, "Guid"⟩

/-- The spelling of the type in schema files. -/
def schemaName (t : ValueType) : String :=
  t.descriptor.schemaName

/-- The type with a spelling. -/
def ofSchemaName? (name : String) : Option ValueType :=
  all.find? fun t => t.schemaName == name

/-- The code of the type in the stored schema document. -/
def typeCode (t : ValueType) : Int :=
  t.descriptor.typeCode

/-- The greatest length that the type accepts, if it accepts one. -/
def lengthLimit (t : ValueType) : Option Int :=
  t.descriptor.maxLength

def acceptsLength (t : ValueType) : Bool :=
  t.lengthLimit.isSome

/-- The declared length, or the limit of the type. -/
def maxLength (t : ValueType) (declared : Option Int) : Option Int :=
  t.lengthLimit.map fun limit => declared.getD limit

/-- The SQL type of a table column or a function parameter. -/
def sqlType (t : ValueType) (length : Option Int) : String :=
  match t.descriptor.sqlType with
  | .fixed name => name
  | .sized name limit =>
      match length with
      | some n =>
          if n ≤ limit then name ++ "(" ++ integerText n ++ ")" else name ++ "(max)"
      | none => name ++ "(max)"

/-- The length that a check constraint has to guard, because the SQL type itself
has no bound. -/
def checkedLength (t : ValueType) (length : Option Int) : Option Int :=
  match t.descriptor.sqlType, length with
  | .sized _ limit, some n => if limit < n then some n else none
  | _, _ => none

/-- How documentation describes the type.  `target` is the tag of an enum or the
name of an item type. -/
def docDescription (t : ValueType) (length : Option Int) (target : Option String) : String :=
  match t, length, target with
  | string, some n, _ => "String with a maximum length of " ++ integerText n ++ " characters"
  | byteArray, some n, _ => "Byte array with a maximum length of " ++ integerText n ++ " bytes"
  | enumeration, _, some tag => "Enumeration <Typ>" ++ tag ++ "</Typ>"
  | itemIdentifier, _, some name => "Identifier of a <Typ>" ++ name ++ "</Typ> item"
  | t, _, _ => t.descriptor.docName

end ValueType

end LearningStore.Value
