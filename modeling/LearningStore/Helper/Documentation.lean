import LearningStore.Helper.Comment
import LearningStore.Schema.Basic

/-!
# What the comments say

Every generated declaration has a comment that says which element of the schema it
stands for, followed by the documentation in the schema file and by what the schema
knows about the element: its type, its default, its fields.
-/

namespace LearningStore.Helper

open LearningStore.Schema
open LearningStore.Text
open LearningStore.Value

/-- The namespaces in which the enums of the base schema and all other enums are
declared. -/
structure EnumPlaces where
  base : String
  derived : String
deriving DecidableEq, Repr

namespace EnumPlaces

/-- The place of an enum, as documentation refers to it. -/
def tag (places : EnumPlaces) (e : EnumType) : String :=
  "/" ++ (if e.inBase then places.base else places.derived) ++ "." ++ e.name

end EnumPlaces

/-- The comment with the documentation of an element. -/
def DocComment.withDocumentation (c : DocComment) (d : Documentation) : DocComment :=
  (c.withSummary d.summary).withRemarks d.remarks

/-- What documentation says about the type of a member. -/
def typeDescription (s : Schema) (places : EnumPlaces) (m : Member)
    (maxLength : Option Int) : Except LookupError String :=
  match m.valueType with
  | .enumeration =>
      (s.referencedEnum m).map fun e =>
        m.valueType.docDescription maxLength (some (places.tag e))
  | .itemIdentifier =>
      (s.referencedItemType m).map fun i =>
        m.valueType.docDescription maxLength (some i.name)
  | type => .ok (type.docDescription maxLength none)

/-- What documentation shows for a default.  An enum value is shown by name where
the enum has one for it. -/
def defaultDescription (s : Schema) (places : EnumPlaces) (m : Member) :
    DefaultValue → Except LookupError String
  | .literal (.enumeration value) =>
      (s.referencedEnum m).map fun e =>
        (Literal.enumeration value).docText
          ((e.nameOf? value).map fun name => places.tag e ++ "." ++ name)
  | default => .ok (default.docText none)

/-! ## Item types -/

def itemTypeComment (i : ItemType) : DocComment :=
  (((DocComment.ofSummary ("Describes the " ++ i.name ++ " item type.")).withDocumentation
    i.documentation).withRemark "Properties of this item type:").withFieldList
      ("Id" :: i.properties.map fun p => p.name)

def itemTypeNameComment (i : ItemType) : DocComment :=
  .ofSummary ("Name of the " ++ i.name ++ " item type.")

/-- The first line about a property. -/
def propertySummary (property itemType : String) : String :=
  "Name of the " ++ property ++ " property on the " ++ itemType ++ " item type."

def idComment (i : ItemType) : DocComment :=
  (DocComment.ofSummary (propertySummary "Id" i.name)).withRemarkLines
    ["Identifies an item of this type. The store assigns it when the item is added.<p/>",
      "Type: " ++ ValueType.itemIdentifier.docDescription none (some i.name) ++ "<p/>",
      "Cannot be null.<p/>"]

/-- What is said about the default of a property. -/
def defaultRemark (s : Schema) (places : EnumPlaces) (p : Property) :
    Except LookupError String :=
  match p.default with
  | some default =>
      (defaultDescription s places p.toMember default).map fun text =>
        "Default value: " ++ text ++ "<p/>"
  | none => .ok "No default value.<p/>"

/-- What is said about the deletion of items that a property refers to. -/
def cascadeRemarks (p : Property) : List String :=
  if p.valueType = .itemIdentifier ∧ p.cascadeDelete then
    ["The item is deleted automatically when the item it refers to is deleted.<p/>"]
  else []

def propertyComment (s : Schema) (places : EnumPlaces) (p : Property) :
    Except LookupError DocComment := do
  let description ← typeDescription s places p.toMember p.maxLength
  let default ← defaultRemark s places p
  pure (((DocComment.ofSummary (propertySummary p.name p.owner)).withDocumentation
    p.documentation).withRemarkLines
      (["Type: " ++ description ++ "<p/>",
        if p.nullable then "Can be null.<p/>" else "Cannot be null.<p/>", default] ++
        cascadeRemarks p))

def maxLengthComment (p : Property) : DocComment :=
  .ofSummary ("Maximum length of the " ++ p.name ++ " property, in " ++
    (if p.valueType = .byteArray then "bytes" else "characters") ++ ".")

/-! ## Views and rights -/

/-- The comment with a list of parameters, or a word that there are none. -/
def DocComment.withParameters (c : DocComment) (parameters : List Parameter) : DocComment :=
  if parameters.isEmpty then c.withRemark "None"
  else c.withFieldList (parameters.map fun p => p.name)

def viewComment (v : View) : DocComment :=
  (((((DocComment.ofSummary ("Describes the " ++ v.name ++ " view.")).withDocumentation
    v.documentation).withRemark "Columns returned by this view:").withFieldList
      (v.columns.map fun c => c.name)).withRemark
        "Parameters of this view:").withParameters v.parameters

def viewNameComment (v : View) : DocComment :=
  .ofSummary ("Name of the " ++ v.name ++ " view.")

def columnComment (s : Schema) (places : EnumPlaces) (c : Column) :
    Except LookupError DocComment :=
  (typeDescription s places c.toMember none).map fun description =>
    ((DocComment.ofSummary ("Name of the " ++ c.name ++ " column of the " ++ c.owner ++
      " view.")).withDocumentation c.documentation).withRemark ("Type: " ++ description)

/-- How a comment refers to the owner of a parameter. -/
def ownerPhrase : Owner → String
  | .view name => name ++ " view"
  | .right name => name ++ " right"

def parameterComment (s : Schema) (places : EnumPlaces) (p : Parameter) :
    Except LookupError DocComment :=
  (typeDescription s places p.toMember none).map fun description =>
    ((DocComment.ofSummary ("Name of the " ++ p.name ++ " parameter of the " ++
      ownerPhrase p.owner ++ ".")).withDocumentation p.documentation).withRemark
        ("Type: " ++ description)

def rightComment (r : Right) : DocComment :=
  (((DocComment.ofSummary ("Describes the " ++ r.name ++ " right.")).withDocumentation
    r.documentation).withRemark "Parameters of this right:").withParameters r.parameters

def rightNameComment (r : Right) : DocComment :=
  .ofSummary ("Name of the " ++ r.name ++ " right.")

/-! ## Enums and identifiers -/

/-- The comment of an enum is its documentation, with its name in place of a
missing or blank summary. -/
def enumComment (e : EnumType) : DocComment :=
  let summary := e.documentation.summary.toList.flatMap trimmedLines
  ⟨if summary.isEmpty then [e.name] else summary, e.documentation.remarks.map trimmedLines⟩

def enumValueComment (v : EnumValue) : DocComment :=
  (DocComment.ofSummary (v.name ++ " (" ++ integerText v.value ++ ")")).withSummary
    v.documentation

/-- The comment of an identifier class, which refers to the class of the item
type. -/
def identifierComment (i : ItemType) (itemTypeNamespace : String) : DocComment :=
  .ofSummary ("Identifier of an item of type <Typ>/" ++ itemTypeNamespace ++ "." ++
    i.name ++ "</Typ>.")

def identifierOfKeyComment (i : ItemType) : DocComment :=
  .ofSummary ("Create a " ++ i.name ++ "Identifier from the key of a " ++ i.name ++
    " item.")

def identifierOfIdentifierComment (i : ItemType) : DocComment :=
  (DocComment.ofSummary ("Create a " ++ i.name ++
    "Identifier from a generic identifier.")).withRemark
      ("<paramref name=\"id\"/> must refer to a " ++ i.name ++ " item.")

def lengthsComment : DocComment :=
  .ofSummary "Maximum lengths of base schema properties."

def itemTypeLengthsComment (i : ItemType) : DocComment :=
  .ofSummary ("Maximum lengths of the properties of the " ++ i.name ++ " item type.")

end LearningStore.Helper
