import LearningStore.Helper.Declaration
import LearningStore.Helper.Documentation

/-!
# Helper files

Three files give a program the names of a schema as constants.  The components
helper holds the enums of the base schema and the lengths of its properties, the
storage helper the classes for everything else in it.  The helper of a derived schema
covers the base schema as well, but only by reference to the storage helper.
-/

namespace LearningStore.Helper

open LearningStore.Schema

/-- The namespaces of what the base schema declares. -/
structure HelperNamespaces where
  components : String := "Microsoft.LearningComponents"
  storage : String := "Microsoft.LearningComponents.Storage"
  baseSchema : String := "Microsoft.LearningComponents.Storage.BaseSchema"
deriving DecidableEq, Repr

/-- Whether what comes from the base schema is spelled out, as in its own helpers,
or referred to in the storage helper. -/
inductive Flavor where
  | storage
  | derived
deriving DecidableEq, Repr

/-- What the declarations of one helper file depend on. -/
structure Setting where
  schema : Schema
  namespaces : HelperNamespaces
  enums : EnumPlaces
  flavor : Flavor

/-- The class with the lengths of the properties of the base schema. -/
def lengthsClass : String := "BaseSchemaInternal"

namespace Setting

/-- The setting of the helpers of the base schema. -/
def ofBase (s : Schema) (names : HelperNamespaces) : Setting :=
  ⟨s, names, ⟨names.components, names.components⟩, .storage⟩

/-- The setting of the helper of a derived schema, with its enums in a
namespace. -/
def ofDerived (s : Schema) (names : HelperNamespaces) (enumNamespace : String) : Setting :=
  ⟨s, names, ⟨names.components, enumNamespace⟩, .derived⟩

/-- A value, or a reference to the same constant of the storage helper if it comes
from the base schema. -/
def value (t : Setting) (inBase : Bool) (entity member : String) (value : ConstantValue) :
    ConstantValue :=
  if inBase ∧ t.flavor = .derived then
    .reference ⟨t.namespaces.baseSchema, entity, member⟩
  else value

/-- The constant that holds the name of an element. -/
def entityName (t : Setting) (inBase : Bool) (entity constant : String)
    (comment : DocComment) : Constant :=
  ⟨comment, false, .string, constant, t.value inBase entity constant (.text entity)⟩

/-- The constant that holds the name of a member and has that name itself. -/
def memberName (t : Setting) (nameAccepted inBase : Bool) (entity member : String)
    (comment : DocComment) : Constant :=
  ⟨comment, nameAccepted, .string, member, t.value inBase entity member (.text member)⟩

/-- The constant with the maximum length of a property, if there is one. -/
def maxLengthConstant (t : Setting) (i : ItemType) (p : Property) : List Constant :=
  p.maxLength.toList.map fun length =>
    let value := match t.flavor with
      | .storage => .reference ⟨lengthsClass, i.name, p.maxLengthConstant⟩
      | .derived => t.value p.inBase i.name p.maxLengthConstant (.number length)
    ⟨maxLengthComment p, true, .int, p.maxLengthConstant, value⟩

/-- The constants for a property: its name and its maximum length. -/
def propertyConstants (t : Setting) (i : ItemType) (p : Property) :
    Except LookupError (List Constant) :=
  (propertyComment t.schema t.enums p).map fun comment =>
    t.memberName true p.inBase i.name p.name comment :: t.maxLengthConstant i p

def itemTypeClass (t : Setting) (i : ItemType) : Except LookupError ConstantClass :=
  (i.properties.mapM (t.propertyConstants i)).map fun constants =>
    ⟨itemTypeComment i, i.name,
      [t.entityName i.inBase i.name "ItemTypeName" (itemTypeNameComment i),
        t.memberName false i.inBase i.name "Id" (idComment i)] ++ constants.flatten⟩

def columnConstant (t : Setting) (v : View) (c : Column) : Except LookupError Constant :=
  (columnComment t.schema t.enums c).map (t.memberName true c.inBase v.name c.name)

def parameterConstant (t : Setting) (entity : String) (p : Parameter) :
    Except LookupError Constant :=
  (parameterComment t.schema t.enums p).map (t.memberName true p.inBase entity p.name)

def viewClass (t : Setting) (v : View) : Except LookupError ConstantClass := do
  let columns ← v.columns.mapM (t.columnConstant v)
  let parameters ← v.parameters.mapM (t.parameterConstant v.name)
  pure ⟨viewComment v, v.name,
    [t.entityName v.inBase v.name "ViewName" (viewNameComment v)] ++ columns ++ parameters⟩

def rightClass (t : Setting) (r : Right) : Except LookupError ConstantClass :=
  (r.parameters.mapM (t.parameterConstant r.name)).map fun parameters =>
    ⟨rightComment r, r.name,
      t.entityName r.inBase r.name "RightName" (rightNameComment r) :: parameters⟩

/-- The classes of item types, then of views, then of rights. -/
def classes (t : Setting) : Except LookupError (List TypeDeclaration) := do
  let itemTypes ← t.schema.itemTypes.mapM t.itemTypeClass
  let views ← t.schema.views.mapM t.viewClass
  let rights ← t.schema.rights.mapM t.rightClass
  pure ((itemTypes ++ views ++ rights).map .constants)

end Setting

def enumeration (e : EnumType) : TypeDeclaration :=
  .enumeration ⟨enumComment e, e.name,
    e.values.map fun v => ⟨enumValueComment v, v.name, v.value⟩⟩

/-- The identifier class of an item type whose class stands in a namespace. -/
def identifierClass (itemTypeNamespace : String) (i : ItemType) : TypeDeclaration :=
  let name := i.name ++ "Identifier"
  let itemTypeName := itemTypeNamespace ++ "." ++ i.name ++ ".ItemTypeName"
  .identifier ⟨identifierComment i itemTypeNamespace, name,
    [⟨identifierOfKeyComment i, name, "long key", itemTypeName ++ ", key", []⟩,
      ⟨identifierOfIdentifierComment i, name, "LearningStoreItemIdentifier id", "id",
        [⟨"id == null", "ArgumentNullException", "id"⟩,
          ⟨"id.ItemTypeName != " ++ itemTypeName, "ArgumentOutOfRangeException", "id"⟩]⟩]⟩

/-- The length of a property, if it has one, as a number. -/
def lengthConstant (p : Property) : List Constant :=
  p.maxLength.toList.map fun length =>
    ⟨maxLengthComment p, true, .int, p.maxLengthConstant, .number length⟩

/-- The lengths of all properties of a schema. -/
def lengths (s : Schema) : TypeDeclaration :=
  .group ⟨lengthsComment, lengthsClass, s.itemTypes.map fun i =>
    ⟨itemTypeLengthsComment i, i.name, i.properties.flatMap lengthConstant⟩⟩

/-- The namespaces that files with attributes use. -/
def commonUsings : List String := ["System", "System.Diagnostics.CodeAnalysis"]

/-- The enums of the base schema and the lengths of its properties. -/
def componentsHelper (s : Schema) (names : HelperNamespaces) : List NamespaceBlock :=
  [⟨names.components, commonUsings, s.enums.map enumeration ++ [lengths s]⟩]

/-- The classes of the base schema, then the identifiers of its items. -/
def storageHelper (s : Schema) (names : HelperNamespaces) :
    Except LookupError (List NamespaceBlock) :=
  (Setting.ofBase s names).classes.map fun classes =>
    [⟨names.baseSchema, commonUsings, classes⟩,
      ⟨names.storage, ["System"], s.itemTypes.map (identifierClass names.baseSchema)⟩]

/-- The classes of a derived schema in one namespace; the enums and identifiers that
the base schema lacks in another. -/
def derivedHelper (s : Schema) (names : HelperNamespaces)
    (enumNamespace schemaNamespace : String) : Except LookupError (List NamespaceBlock) :=
  (Setting.ofDerived s names enumNamespace).classes.map fun classes =>
    [⟨schemaNamespace, commonUsings, classes⟩,
      ⟨enumNamespace, commonUsings ++ ["Microsoft.LearningComponents.Storage"],
        (s.enums.filter fun e => !e.inBase).map enumeration ++
          (s.itemTypes.filter fun i => !i.inBase).map (identifierClass schemaNamespace)⟩]

end LearningStore.Helper
