import LearningStore.Helper.Comment
import LearningStore.Text.Letters
import LearningStore.Text.Quoted

/-!
# Declarations of a helper file

A helper file is a list of namespaces with classes and enums in them.  Classes hold
constants, enums hold values, and identifier classes hold constructors.  A constant
is spelled out or refers to a constant of another class.
-/

namespace LearningStore.Helper

open LearningStore.Text

/-- A constant of a class in a namespace, or in a class around that class. -/
structure Reference where
  scope : String
  entity : String
  member : String
deriving DecidableEq, Repr

namespace Reference

def text (r : Reference) : String :=
  r.scope ++ "." ++ r.entity ++ "." ++ r.member

end Reference

/-- The right-hand side of a constant. -/
inductive ConstantValue where
  | text (value : String)
  | number (value : Int)
  | reference (target : Reference)
deriving DecidableEq, Repr

namespace ConstantValue

def source : ConstantValue → String
  | text value => csharpString value
  | number value => integerText value
  | reference target => target.text

end ConstantValue

inductive ConstantType where
  | string
  | int
deriving DecidableEq, Repr

namespace ConstantType

def keyword : ConstantType → String
  | string => "string"
  | int => "int"

end ConstantType

/-- A constant of a class.  The code analysis is told to accept a name that comes
from the schema. -/
structure Constant where
  comment : DocComment
  nameAccepted : Bool
  type : ConstantType
  name : String
  value : ConstantValue
deriving DecidableEq, Repr

/-- A value of an enum. -/
structure EnumMember where
  comment : DocComment
  name : String
  value : Int
deriving DecidableEq, Repr

/-- A check at the start of a constructor, which raises an exception about an
argument. -/
structure Guard where
  condition : String
  exception : String
  argument : String
deriving DecidableEq, Repr

structure Constructor where
  comment : DocComment
  name : String
  parameters : String
  baseArguments : String
  guards : List Guard
deriving DecidableEq, Repr

/-- The rules of the code analysis that names from a schema need not follow. -/
def namingRules : List String := ["CA1726", "CA1702", "CA1704"]

/-- The lines that make the code analysis accept a name. -/
def nameAcceptance (accepted : Bool) : List Line :=
  if accepted then
    namingRules.map fun rule =>
      line ("[SuppressMessageAttribute(\"Microsoft.Naming\", \"" ++ rule ++ "\")]")
  else []

namespace Constant

def lines (c : Constant) : List Line :=
  c.comment.lines ++ nameAcceptance c.nameAccepted ++
    [line ("public const " ++ c.type.keyword ++ " " ++ c.name ++ " = " ++
      c.value.source ++ ";")]

end Constant

namespace EnumMember

def lines (m : EnumMember) : List Line :=
  m.comment.lines ++ nameAcceptance true ++
    [line (m.name ++ " = " ++ integerText m.value ++ ",")]

end EnumMember

namespace Guard

def lines (g : Guard) : List Line :=
  [line ("if (" ++ g.condition ++ ") \x7b")] ++
    indented [line ("throw new " ++ g.exception ++ "(" ++ csharpString g.argument ++ ");")] ++
    [line "\x7d"]

end Guard

namespace Constructor

def lines (c : Constructor) : List Line :=
  c.comment.lines ++
    [line ("public " ++ c.name ++ "(" ++ c.parameters ++ ") : base(" ++
      c.baseArguments ++ ") \x7b")] ++
    indented (c.guards.flatMap Guard.lines) ++ [line "\x7d"]

end Constructor

/-- The lines of a block of items, each with a blank line before it. -/
def block (header : String) (items : List (List Line)) : List Line :=
  [line (header ++ " \x7b")] ++ indented (items.flatMap fun item => blankLine :: item) ++
    [line "\x7d"]

/-- A class that holds the constants of an item type, a view or a right. -/
structure ConstantClass where
  comment : DocComment
  name : String
  constants : List Constant
deriving DecidableEq, Repr

structure Enumeration where
  comment : DocComment
  name : String
  members : List EnumMember
deriving DecidableEq, Repr

/-- A class of identifiers of items. -/
structure IdentifierClass where
  comment : DocComment
  name : String
  constructors : List Constructor
deriving DecidableEq, Repr

/-- A class around other classes, which only the library itself can see. -/
structure InternalClass where
  comment : DocComment
  name : String
  classes : List ConstantClass
deriving DecidableEq, Repr

inductive TypeDeclaration where
  | constants (c : ConstantClass)
  | enumeration (e : Enumeration)
  | identifier (c : IdentifierClass)
  | group (c : InternalClass)
deriving DecidableEq, Repr

namespace ConstantClass

def lines (c : ConstantClass) : List Line :=
  c.comment.lines ++ nameAcceptance true ++
    block ("public abstract class " ++ c.name) (c.constants.map Constant.lines)

end ConstantClass

namespace TypeDeclaration

def name : TypeDeclaration → String
  | constants c => c.name
  | enumeration e => e.name
  | identifier c => c.name
  | group c => c.name

def lines : TypeDeclaration → List Line
  | constants c => c.lines
  | enumeration e =>
      e.comment.lines ++ block ("public enum " ++ e.name) (e.members.map EnumMember.lines)
  | identifier c =>
      c.comment.lines ++
        block ("public class " ++ c.name ++ " : LearningStoreItemIdentifier")
          (c.constructors.map Constructor.lines)
  | group c =>
      c.comment.lines ++
        block ("internal abstract class " ++ c.name) (c.classes.map ConstantClass.lines)

end TypeDeclaration

/-- A namespace with the namespaces that it uses and the types in it. -/
structure NamespaceBlock where
  name : String
  usings : List String
  types : List TypeDeclaration
deriving DecidableEq, Repr

namespace NamespaceBlock

def lines (b : NamespaceBlock) : List Line :=
  [line ("namespace " ++ b.name ++ " \x7b")] ++
    indented (b.usings.map (fun used => line ("using " ++ used ++ ";")) ++
      b.types.flatMap fun t => blankLine :: t.lines) ++
    [line "\x7d"]

end NamespaceBlock

/-- The comment at the top of a generated file. -/
def fileHeader : List Line :=
  [line "//------------------------------------------------------------------------------",
    line "// <auto-generated>",
    line "//     This code was generated by store-schema-compiler.",
    line "//",
    line "//     Changes to this file may cause incorrect behavior and will be lost if",
    line "//     the code is regenerated.",
    line "// </auto-generated>",
    line "//------------------------------------------------------------------------------"]

/-- The text of a file with some namespaces. -/
def fileText (blocks : List NamespaceBlock) : String :=
  renderLines (fileHeader ++ blocks.flatMap fun b => blankLine :: b.lines)

end LearningStore.Helper
