import LearningStore.Schema.Element
import LearningStore.Schema.Problem

/-!
# Declarations of a schema file

What one schema file declares and what it extends, in document order and with the
places where it was found.
-/

namespace LearningStore.Schema

/-- A declaration and its place. -/
structure Declared (α : Type) where
  item : α
  location : Location
deriving DecidableEq, Repr

/-- More documentation for a property or a parameter. -/
structure MemberExtension where
  name : String
  location : Location
  documentation : Documentation
deriving DecidableEq, Repr

/-- What an item type and an extension of one can hold. -/
structure ItemTypeBody where
  documentation : Documentation
  expressions : List (ItemRight × String)
  properties : List (Declared Property)
  propertyExtensions : List MemberExtension
  indexes : List String
  sqlAfter : List String
deriving DecidableEq, Repr

namespace ItemTypeBody

/-- The grant expressions of a right. -/
def expressionsOf (body : ItemTypeBody) (right : ItemRight) : List String :=
  (body.expressions.filter fun e => e.1 == right).map Prod.snd

end ItemTypeBody

structure ItemTypeExtension where
  name : String
  location : Location
  replaceIndexes : Bool
  body : ItemTypeBody
deriving DecidableEq, Repr

structure ViewExtension where
  name : String
  location : Location
  documentation : Documentation
  expressions : List String
deriving DecidableEq, Repr

structure RightExtension where
  name : String
  location : Location
  documentation : Documentation
  expressions : List String
  parameters : List (Declared Parameter)
  parameterExtensions : List MemberExtension
deriving DecidableEq, Repr

/-- The declarations of one file. -/
structure SchemaFile where
  fileName : String
  enums : List (Declared EnumType)
  itemTypes : List (Declared ItemType)
  views : List (Declared View)
  rights : List (Declared Right)
  itemTypeExtensions : List ItemTypeExtension
  viewExtensions : List ViewExtension
  rightExtensions : List RightExtension
  sqlBefore : List String
  sqlAfter : List String
deriving DecidableEq, Repr

namespace SchemaFile

/-- A file that declares nothing. -/
def empty (fileName : String) : SchemaFile :=
  ⟨fileName, [], [], [], [], [], [], [], [], []⟩

end SchemaFile

end LearningStore.Schema
