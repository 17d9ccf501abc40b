import LearningStore.Text.Quoted
import LearningStore.Value.Base64
import LearningStore.Value.DateTimeText
import LearningStore.Value.Decimal
import LearningStore.Value.Guid
import LearningStore.Value.Integer
import LearningStore.Value.ValueType

/-!
# Default values

A default is the null value, an SQL expression, or a literal of the value type of
its property.  Every literal has one form in SQL and one in documentation.
-/

namespace LearningStore.Value

open LearningStore.Text

/-- A value of one of the types that can have a literal default. -/
inductive Literal where
  | boolean (value : Bool)
  | byteArray (bytes : List UInt8)
  | dateTime (value : DateTime)
  | double (value : Binary)
  | single (value : Binary)
  | int32 (value : Int)
  | enumeration (value : Int)
  | guid (value : Guid)
  | string (value : String)
  | xml (value : String)
deriving DecidableEq, Repr

/-- Why a text is no literal of a type. -/
inductive LiteralError where
  | noItemIdentifier
  | invalid (text : String) (type : ValueType)
  | invalidBase64 (text : String) (error : Base64.Error)
deriving DecidableEq, Repr

namespace LiteralError

def message : LiteralError → String
  | noItemIdentifier => "item identifier properties cannot have a default value"
  | invalid text type => "'" ++ text ++ "' is not a valid " ++ type.schemaName ++ " value"
  | invalidBase64 text error =>
      "'" ++ text ++ "' is not valid base64 data: " ++ error.message

end LiteralError

/-- The truth value that a text spells as a word or as a digit. -/
def boolean? (s : List Char) : Option Bool :=
  match String.ofList (trim s) with
  | "true" | "1" => some true
  | "false" | "0" => some false
  | _ => none

namespace Literal

/-- The value type of a literal. -/
def valueType : Literal → ValueType
  | boolean _ => .boolean
  | byteArray _ => .byteArray
  | dateTime _ => .dateTime
  | double _ => .double
  | single _ => .single
  | int32 _ => .int32
  | enumeration _ => .enumeration
  | guid _ => .guid
  | string _ => .string
  | xml _ => .xml

/-- The literal that a text denotes in a type.  Texts of the types String and Xml
count as they are; in all others the blanks at the ends do not. -/
def read (type : ValueType) (text : String) : Except LiteralError Literal :=
  let chars := trim text.toList
  let shown := String.ofList chars
  let orInvalid (value : Option Literal) : Except LiteralError Literal :=
    match value with
    | some literal => .ok literal
    | none => .error (.invalid shown type)
  match type with
  | .itemIdentifier => .error .noItemIdentifier
  | .string => .ok (.string text)
  | .xml => .ok (.xml text)
  | .boolean => orInvalid ((boolean? chars).map .boolean)
  | .byteArray =>
      let compact := String.ofList (chars.filter fun c => !isBlank c)
      match Base64.decode compact.toUTF8.data.toList with
      | .ok bytes => .ok (.byteArray bytes)
      | .error e => .error (.invalidBase64 shown e)
  | .dateTime => orInvalid ((DateTime.read? chars).map .dateTime)
  | .double => orInvalid ((Binary.read? .double chars).map .double)
  | .single => orInvalid ((Binary.read? .single chars).map .single)
  | .int32 => orInvalid ((Integer.read? chars).map .int32)
  | .enumeration => orInvalid ((Integer.read? chars).map .enumeration)
  | .guid => orInvalid ((Guid.read? chars).map .guid)

/-- The two hexadecimal digits of a byte, with capital letters. -/
def hexPair (byte : UInt8) : List Char :=
  [(Nat.digitChar (byte.toNat / 16)).toUpper, (Nat.digitChar (byte.toNat % 16)).toUpper]

/-- Every line end replaced by one space. -/
def onOneLine : List Char → List Char
  | [] => []
  | '\r' :: '\n' :: rest => ' ' :: onOneLine rest
  | c :: rest => (if c = '\r' ∨ c = '\n' then ' ' else c) :: onOneLine rest

/-- The literal as SQL text. -/
def sqlConstant : Literal → String
  | boolean value => if value then "1" else "0"
  | byteArray bytes => String.ofList ('0' :: 'x' :: bytes.flatMap hexPair)
  | dateTime value => "\x7bts '" ++ String.ofList value.toMillisecond ++ "'\x7d"
  | double value => value.text .double
  | single value => value.text .single
  | int32 value => integerText value
  | enumeration value => integerText value
  | guid value => "'" ++ value.hyphenated ++ "'"
  | string value => sqlString value
  | xml value => sqlString (String.ofList (onOneLine value.toList))

/-- The literal as documentation shows it.  An enumeration value is shown by its
tag, where the caller knows one. -/
def docText (literal : Literal) (tag : Option String) : String :=
  match literal with
  | boolean value => if value then "True" else "False"
  | byteArray bytes => String.ofList (List.intercalate ['-'] (bytes.map hexPair))
  | dateTime value => String.ofList value.toSecond
  | double value => value.text .double
  | single value => value.text .single
  | int32 value => integerText value
  | enumeration value =>
      match tag with
      | some tag => "<Fld>" ++ tag ++ "</Fld>"
      | none => integerText value
  | guid value => value.hyphenated
  | string value =>
      let inner := value.toList.flatMap fun c => if c = '"' then ['\\', '"'] else [c]
      String.ofList ('"' :: inner ++ ['"'])
  | xml value => xmlEscaped value

end Literal

/-- The default of a property. -/
inductive DefaultValue where
  | null
  | function (expression : String)
  | literal (value : Literal)
deriving DecidableEq, Repr

namespace DefaultValue

/-- The default as SQL text. -/
def sqlConstant : DefaultValue → String
  | null => "NULL"
  | function expression => expression
  | literal value => value.sqlConstant

/-- The default as documentation shows it. -/
def docText (default : DefaultValue) (tag : Option String) : String :=
  match default with
  | null => "null"
  | function expression => expression
  | literal value => value.docText tag

end DefaultValue

end LearningStore.Value
